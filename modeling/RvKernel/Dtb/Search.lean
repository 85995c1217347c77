/-
# The search finds the first node of that name

`dtb_match_node_name_rec` on a flattened tree.  The loop over the properties skips them, and the
`FDT_NOP`s that follow; it stops at the first subnode or at the end of the node.  The loop over the
subnodes then starts behind these `FDT_NOP`s, which it would have skipped itself.

The search is followed through the tree by an induction on it: a node without a match returns the
address behind its `FDT_END_NODE`, where the loop of its parent goes on.
-/
import RvKernel.Dtb.Tree

namespace RvKernel.Dtb

open Bytes Text

variable {b : Blob} {p : ℕ}

/-! ## 1. `DIV_ROUND_UP` -/

/-- As long as it does not overflow, it rounds up. -/
theorem toNat_divRoundUp_four {w n : ℕ} (hw : 3 ≤ w) (h : n + 3 < 2 ^ w) :
    (divRoundUp (BitVec.ofNat w n) 4).toNat = (n + 3) / 4 := by
  have hpow : 2 ^ 3 ≤ 2 ^ w := Nat.pow_le_pow_right (by decide) hw
  have hfour : (4 : BitVec w).toNat = 4 := Nat.mod_eq_of_lt (show 4 < 2 ^ w by omega)
  have hsum : BitVec.ofNat w n - 1 + 4 = BitVec.ofNat w (n + 3) := by
    have hsplit : (4 : BitVec w) = 1 + BitVec.ofNat w 3 := by
      apply BitVec.eq_of_toNat_eq
      simp
    rw [hsplit, ← BitVec.add_assoc, BitVec.sub_add_cancel, BitVec.ofNat_add]
  rw [divRoundUp, hsum, BitVec.toNat_udiv, BitVec.toNat_ofNat, Nat.mod_eq_of_lt h, hfour]

/-! ## 2. The properties -/

theorem flattenNops_succ (k : ℕ) :
    flattenNops (k + 1) = StructToken.nop.flatten ++ flattenNops k := by
  rw [flattenNops, List.replicate_succ, List.flatten_cons]
  rfl

/-- A loop that skips one `FDT_NOP` skips many. -/
theorem loop_nops {α : Type} {f : ℕ → ℕ → TM α}
    (hf : ∀ {p}, dtbReadStructToken b p = .ok .nop → ∀ n, f (n + 1) p = f n (p + 4)) {k : ℕ}
    (h : b.Holds p (flattenNops k)) (n : ℕ) : f (n + k) p = f n (p + 4 * k) := by
  induction k generalizing p with
  | zero => rfl
  | succ k ih =>
    rw [flattenNops_succ] at h
    have hrest := ih h.right
    rw [length_flatten_token] at hrest
    rw [← Nat.add_assoc, hf h.left.token, hrest]
    congr 1
    omega

theorem skipProps_nops {k : ℕ} (h : b.Holds p (flattenNops k)) (n : ℕ) :
    skipProps b (n + k) p = skipProps b n (p + 4 * k) := by
  refine loop_nops (fun htoken m => ?_) h n
  rw [skipProps, htoken, ok_bind]

/-- What both loops read of a record. -/
theorem Blob.Holds.record {prop : Property} (h : b.Holds p prop.record) :
    dtbReadStructToken b p = .ok .prop ∧
      b.loadBe (p + 4) = .ok (BitVec.ofNat 32 prop.value.length) ∧
      b.loadBe (p + 8) = .ok prop.nameoff := by
  have hlength := h.right.left.loadBe
  have hnameoff := h.right.right.left.loadBe
  rw [length_flatten_token] at hlength hnameoff
  rw [length_be32] at hnameoff
  exact ⟨h.left.token, hlength, hnameoff⟩

theorem skipProps_record {prop : Property} (h : b.Holds p prop.record) (n : ℕ) :
    skipProps b (n + 1) p = skipProps b n (p + prop.record.length) := by
  have hlen := prop.value_lt
  obtain ⟨htoken, hlength, hnameoff⟩ := h.record
  rw [skipProps, htoken, ok_bind]
  simp only [hlength, hnameoff, ok_bind]
  rw [toNat_divRoundUp_four (by decide) (by omega), prop.length_record, Nat.add_assoc]

/-- The properties are skipped, in at most as many turns as they have bytes. -/
theorem skipProps_props {props : List Property} (h : b.Holds p (flattenProps props)) :
    ∃ k ≤ (flattenProps props).length, ∀ n,
      skipProps b (n + k) p = skipProps b n (p + (flattenProps props).length) := by
  induction props generalizing p with
  | nil => exact ⟨0, Nat.zero_le _, fun _ => rfl⟩
  | cons prop props ih =>
    have hcons : flattenProps (prop :: props) = prop.flatten ++ flattenProps props := rfl
    rw [hcons] at h ⊢
    obtain ⟨k, hk, heq⟩ := ih h.right
    have hrecord := h.left.right
    rw [length_flattenNops] at hrecord
    refine ⟨k + 1 + prop.nops, ?_, ?_⟩
    · rw [List.length_append, prop.length_flatten, prop.length_record]
      omega
    · intro n
      calc skipProps b (n + (k + 1 + prop.nops)) p
        _ = skipProps b (n + k + 1) (p + 4 * prop.nops) := by
          rw [← skipProps_nops h.left.left]
          congr 1
          omega
        _ = skipProps b (n + k) (p + prop.flatten.length) := by
          rw [skipProps_record hrecord, prop.length_flatten]
          congr 1
          omega
        _ = _ := by
          rw [heq, List.length_append, Nat.add_assoc]

/-- The loop stops at a node's begin or end. -/
theorem skipProps_stop {token : StructToken} (h : b.Holds p token.flatten)
    (htoken : token = .beginNode ∨ token = .endNode) (n : ℕ) : skipProps b (n + 1) p = .ok p := by
  rw [skipProps, h.token, ok_bind]
  rcases htoken with rfl | rfl
  · rfl
  · rfl

/-- What follows the properties of a node: `FDT_NOP`s, and then a begin or the end. -/
theorem Nodes.holds_head {ts : Nodes} {k : ℕ}
    (h : b.Holds p (ts.flatten ++ (flattenNops k ++ StructToken.endNode.flatten))) :
    ∃ (j : ℕ) (token : StructToken), b.Holds p (flattenNops j) ∧
      b.Holds (p + 4 * j) token.flatten ∧ (token = .beginNode ∨ token = .endNode) ∧
      j ≤ ts.flatten.length + 4 * k := by
  cases ts with
  | nil =>
    rw [Nodes.flatten, List.nil_append] at h
    have hend := h.right
    rw [length_flattenNops] at hend
    exact ⟨k, .endNode, h.left, hend, Or.inr rfl, by omega⟩
  | cons nops t ts =>
    obtain ⟨name, props, children, nops'⟩ := t
    simp only [Nodes.flatten, Node.flatten, List.append_assoc] at h ⊢
    have hbegin := h.right.left
    rw [length_flattenNops] at hbegin
    refine ⟨nops, .beginNode, h.left, hbegin, Or.inl rfl, ?_⟩
    rw [List.length_append, length_flattenNops]
    omega

/-- **The first loop** stops behind the properties and the `FDT_NOP`s that follow them. -/
theorem run_skipProps {props : List Property} {ts : Nodes} {k n : ℕ}
    (h : b.Holds p (flattenProps props ++
      (ts.flatten ++ (flattenNops k ++ StructToken.endNode.flatten))))
    (hn : (flattenProps props).length + ts.flatten.length + 4 * k + 1 ≤ n) :
    ∃ j, skipProps b n p = .ok (p + (flattenProps props).length + 4 * j) ∧
      b.Holds (p + (flattenProps props).length) (flattenNops j) := by
  obtain ⟨j, token, hnops, hstop, htoken, hj⟩ := Nodes.holds_head h.right
  refine ⟨j, ?_, hnops⟩
  obtain ⟨i, hi, hprops⟩ := skipProps_props h.left
  calc skipProps b n p
    _ = skipProps b (n - i - j - 1 + 1 + j) (p + (flattenProps props).length) := by
      rw [← hprops]
      congr 1
      omega
    _ = _ := by
      rw [skipProps_nops hnops, skipProps_stop hstop htoken]

/-! ## 3. The subnodes -/

section Visit

variable {search : ℕ → TM DtbNodeSearchResult} {result : DtbNodeSearchResult}

theorem visitSubnodes_nops {k : ℕ} (h : b.Holds p (flattenNops k)) (n : ℕ) :
    visitSubnodes b search (n + k) p result = visitSubnodes b search n (p + 4 * k) result := by
  refine loop_nops (f := fun n p => visitSubnodes b search n p result) (fun htoken m => ?_) h n
  rw [visitSubnodes, htoken, ok_bind]

theorem visitSubnodes_begin (h : b.Holds p StructToken.beginNode.flatten)
    {r : DtbNodeSearchResult} (hr : search p = .ok r) (n : ℕ) :
    visitSubnodes b search (n + 1) p result =
      if r.match_ then .ok r else visitSubnodes b search n r.ptr r := by
  rw [visitSubnodes, h.token, ok_bind]
  simp only [hr, ok_bind]
  rfl

theorem visitSubnodes_end (h : b.Holds p StructToken.endNode.flatten) (n : ℕ) :
    visitSubnodes b search (n + 1) p result
      = .ok { result with ptr := p + 4, match_ := false } := by
  rw [visitSubnodes, h.token]
  rfl

end Visit

/-! ## 4. The search -/

variable {q : Ptr} {nm : List U8}

/-- The result of a search that visits these nodes, and returns the address `behind` without a
match. -/
def found (nm : List U8) (nodes : List (ℕ × Node)) (behind : ℕ) : DtbNodeSearchResult :=
  match firstNamed nm nodes with
  | some v => { match_ := true, node := v.2.at_ v.1, ptr := v.1 + 4 }
  | none => { ptr := behind }

section Found

variable {nodes : List (ℕ × Node)}

theorem found_of_some {v : ℕ × Node} (h : firstNamed nm nodes = some v) (behind : ℕ) :
    found nm nodes behind = { match_ := true, node := v.2.at_ v.1, ptr := v.1 + 4 } := by
  rw [found, h]

theorem found_of_none (h : firstNamed nm nodes = none) (behind : ℕ) :
    found nm nodes behind = { ptr := behind } := by
  rw [found, h]

theorem found_cons_pos {t : Node} (h : t.name.bytes = nm) (p behind : ℕ) :
    found nm ((p, t) :: nodes) behind
      = { match_ := true, node := t.at_ p, ptr := p + 4 } := by
  rw [found, firstNamed, List.find?_cons_of_pos (by simpa using h)]

theorem found_cons_neg {t : Node} (h : t.name.bytes ≠ nm) (p behind : ℕ) :
    found nm ((p, t) :: nodes) behind = found nm nodes behind := by
  rw [found, firstNamed, List.find?_cons_of_neg (by simpa using h)]
  rfl

theorem firstNamed_append (nodes' : List (ℕ × Node)) :
    firstNamed nm (nodes ++ nodes') = (firstNamed nm nodes).or (firstNamed nm nodes') :=
  List.find?_append

theorem found_append_none (h : firstNamed nm nodes = none) (nodes' : List (ℕ × Node))
    (behind : ℕ) : found nm (nodes ++ nodes') behind = found nm nodes' behind := by
  rw [found, firstNamed_append, h, Option.none_or]
  rfl

end Found

theorem Node.holds_begin {t : Node} (h : b.Holds p t.flatten) :
    b.Holds p StructToken.beginNode.flatten := by
  obtain ⟨name, props, children, nops⟩ := t
  rw [Node.flatten] at h
  exact h.left

theorem Node.length_flatten_pos (t : Node) : 0 < t.flatten.length := by
  obtain ⟨name, props, children, nops⟩ := t
  rw [Node.flatten, List.length_append, length_flatten_token]
  omega

/-- A node's begin, its name and its comparison. -/
theorem dtbMatchNodeNameRec_begin {name : Name} (props : List Property) (children : Nodes)
    (nops : ℕ) (h : b.Holds p (StructToken.beginNode.flatten ++ name.flatten)) 
    (hq : PointsTo q nm) (n : ℕ) :
    dtbMatchNodeNameRec b q (n + 1) p =
      if name.bytes = nm then
        .ok { match_ := true, node := (Node.mk name props children nops).at_ p, ptr := p + 4 }
      else
        skipProps b n (p + 4 + name.flatten.length) >>= fun ptr =>
          visitSubnodes b (dtbMatchNodeNameRec b q n) n ptr {} := by
  have hname := h.right.pointsTo
  rw [length_flatten_token] at hname
  have hlt := h.length_lt
  rw [List.length_append, length_flatten_token, name.length_flatten] at hlt
  obtain ⟨d, hd, hiff⟩ := run_strcmp hname hq
  have hpad : 4 * (divRoundUp (BitVec.ofNat 64 (name.bytes.length + 1)) 4).toNat
      = name.flatten.length := by
    rw [toNat_divRoundUp_four (by decide) (by omega), name.length_flatten]
  rw [dtbMatchNodeNameRec, h.left.token]
  simp only [ok_bind, pure_eq, ne_eq, not_true_eq_false, if_false, run_strlen hname, hd, hpad, hiff]
  rfl

mutual

/-- **The search in a tree**: it returns the first node of that name, or the address behind the
tree. -/
theorem Node.run_search (hq : PointsTo q nm) : ∀ (t : Node) {p n : ℕ}, b.Holds p t.flatten →
    t.flatten.length ≤ n →
    dtbMatchNodeNameRec b q n p = .ok (found nm (t.nodes p) (p + t.flatten.length))
  | .mk name props children nops, p, n, h, hn => by
    rw [Node.flatten] at h hn ⊢
    simp only [List.length_append, length_flatten_token, length_flattenNops] at hn ⊢
    obtain ⟨n, rfl⟩ : ∃ m, n = m + 1 := ⟨n - 1, by omega⟩
    have hbegin : b.Holds p (StructToken.beginNode.flatten ++ name.flatten) := by
      rw [← List.append_assoc] at h
      exact h.left
    have hprops := h.right.right
    rw [length_flatten_token] at hprops
    rw [dtbMatchNodeNameRec_begin props children nops hbegin hq, Node.nodes]
    by_cases hnm : name.bytes = nm
    · rw [if_pos hnm, found_cons_pos (t := .mk name props children nops) hnm]
    · rw [if_neg hnm, found_cons_neg (t := .mk name props children nops) hnm]
      obtain ⟨j, hskip, hlead⟩ := run_skipProps (n := n) hprops (by omega)
      -- the first loop has skipped `j` of the `FDT_NOP`s that belong to the second one
      have hvisit := children.run_visit hq (n := n) (m := n + j) (r := {})
        hprops.right (by omega) (by omega) rfl
      rw [hskip, ok_bind, ← visitSubnodes_nops hlead, hvisit]
      congr 2
      omega

/-- **The search in the subnodes** of a node, up to its end. -/
theorem Nodes.run_visit (hq : PointsTo q nm) : ∀ (ts : Nodes) {p n m k : ℕ}
    {r : DtbNodeSearchResult},
    b.Holds p (ts.flatten ++ (flattenNops k ++ StructToken.endNode.flatten)) →
    ts.flatten.length ≤ n → ts.flatten.length + k + 1 ≤ m → r.node = {} →
    visitSubnodes b (dtbMatchNodeNameRec b q n) m p r
      = .ok (found nm (ts.nodes p) (p + ts.flatten.length + 4 * k + 4))
  | .nil, p, n, m, k, r, h, _, hm, hr => by
    simp only [Nodes.flatten, List.nil_append, List.length_nil, Nat.add_zero, Nat.zero_add]
      at h hm ⊢
    obtain ⟨m, rfl⟩ : ∃ i, m = i + 1 + k := ⟨m - 1 - k, by omega⟩
    have hend := h.right
    rw [length_flattenNops] at hend
    rw [visitSubnodes_nops h.left, visitSubnodes_end hend, hr]
    rfl
  | .cons nops t ts, p, n, m, k, r, h, hn, hm, hr => by
    simp only [Nodes.flatten, List.append_assoc, List.length_append, length_flattenNops]
      at h hn hm ⊢
    have htree := h.right
    rw [length_flattenNops] at htree
    obtain ⟨m, rfl⟩ : ∃ i, m = i + 1 + nops := ⟨m - 1 - nops, by omega⟩
    have hsearch := t.run_search hq htree.left (n := n) (by omega)
    rw [visitSubnodes_nops h.left, visitSubnodes_begin (Node.holds_begin htree.left) hsearch,
      Nodes.nodes]
    cases hfirst : firstNamed nm (t.nodes (p + 4 * nops)) with
    | some v =>
      rw [found_of_some hfirst, found_of_some (by rw [firstNamed_append, hfirst]; rfl)]
      rfl
    | none =>
      have hpos := t.length_flatten_pos
      have hvisit := ts.run_visit hq (n := n) (m := m)
        (r := { ptr := p + 4 * nops + t.flatten.length }) htree.right (by omega) (by omega) rfl
      rw [found_of_none hfirst, found_append_none hfirst]
      refine hvisit.trans ?_
      congr 2
      omega

end

/-! ## 5. Subtrees -/

mutual

/-- Every subtree stands in memory at its address. -/
theorem Node.holds_of_mem : ∀ (t : Node) {p : ℕ} {v : ℕ × Node}, b.Holds p t.flatten →
    v ∈ t.nodes p → b.Holds v.1 v.2.flatten ∧ v.2.flatten.length ≤ t.flatten.length
  | .mk name props children nops, p, v, h, hv => by
    rw [Node.nodes] at hv
    rcases List.mem_cons.mp hv with rfl | hv
    · exact ⟨h, le_rfl⟩
    · rw [Node.flatten] at h ⊢
      have hchildren := h.right.right.right.left
      rw [length_flatten_token] at hchildren
      obtain ⟨hholds, hle⟩ := children.holds_of_mem hchildren hv
      refine ⟨hholds, hle.trans ?_⟩
      simp only [List.length_append]
      omega

theorem Nodes.holds_of_mem : ∀ (ts : Nodes) {p : ℕ} {v : ℕ × Node}, b.Holds p ts.flatten →
    v ∈ ts.nodes p → b.Holds v.1 v.2.flatten ∧ v.2.flatten.length ≤ ts.flatten.length
  | .nil, p, v, _, hv => by
    rw [Nodes.nodes] at hv
    cases hv
  | .cons nops t ts, p, v, h, hv => by
    rw [Nodes.nodes] at hv
    rw [Nodes.flatten] at h ⊢
    have htree := h.right
    rw [length_flattenNops] at htree
    simp only [List.length_append]
    rcases List.mem_append.mp hv with hv | hv
    · obtain ⟨hholds, hle⟩ := t.holds_of_mem htree.left hv
      exact ⟨hholds, by omega⟩
    · obtain ⟨hholds, hle⟩ := ts.holds_of_mem htree.right hv
      exact ⟨hholds, by omega⟩

end

/-- The search from the start of the structure block. -/
theorem run_dtbMatchNodeName {root : Node} {off : U32} (hb : b.Encodes root off) {name : Ptr}
    {nm : List U8} (hname : PointsTo name nm) {fuel : ℕ} (hfuel : root.flatten.length ≤ fuel) :
    dtbMatchNodeName b name fuel
      = .ok ((firstNamed nm (root.nodes (b.dtb + off.toNat))).elim {} fun v => v.2.at_ v.1) := by
  rw [dtbMatchNodeName, Blob.structs, hb.header.loadBe]
  simp only [ok_bind, pure_eq, root.run_search hname hb.structs hfuel]
  cases hfirst : firstNamed nm (root.nodes (b.dtb + off.toNat)) with
  | some v =>
    rw [found_of_some hfirst]
    rfl
  | none =>
    rw [found_of_none hfirst]
    rfl

/-- **`dtb_match_node_name` returns the first node of that name in document order**, and the zero
node if there is none.  In a subtree without such a node, the search returns the address behind its
`FDT_END_NODE`. -/
theorem dtb_match_node_name_first {root : Node} {off : U32} (hb : b.Encodes root off) {name : Ptr}
    {nm : List U8} (hname : PointsTo name nm) {fuel : ℕ} (hfuel : root.flatten.length ≤ fuel) :
    dtbMatchNodeName b name fuel
      = .ok ((firstNamed nm (root.nodes (b.dtb + off.toNat))).elim {} fun v => v.2.at_ v.1) ∧
    ∀ v ∈ root.nodes (b.dtb + off.toNat), (∀ u ∈ v.2.nodes v.1, u.2.name.bytes ≠ nm) →
      ∃ result, dtbMatchNodeNameRec b name fuel v.1 = .ok result ∧ result.match_ = false ∧
        result.ptr = v.1 + v.2.flatten.length := by
  refine ⟨run_dtbMatchNodeName hb hname hfuel, ?_⟩
  intro v hv hnone
  obtain ⟨hholds, hle⟩ := root.holds_of_mem hb.structs hv
  refine ⟨_, v.2.run_search hname hholds (hle.trans hfuel), ?_⟩
  rw [found_of_none (firstNamed_eq_none.mpr hnone)]
  exact ⟨rfl, rfl⟩

/-- A root with a property whose value looks like a token, and two subnodes. -/
def sample : Node :=
  .mk ⟨[], nofun⟩ [⟨1, 0, [0, 0, 0, 2, 0], by decide⟩]
    (.cons 1 (.mk ⟨[99, 112, 117, 115], by decide⟩ [] .nil 2)
      (.cons 0 (.mk ⟨[109, 101, 109], by decide⟩ [] .nil 0) .nil)) 1

/-- Its blob, with a header up to `off_dt_struct`. -/
def sampleBlob : Blob where
  dtb := 0x82200000
  bytes := List.replicate 8 0 ++ (be32 12 ++ sample.flatten)
  dtb_pos := by decide
  fits := by decide

theorem dtb_match_node_name_sample :
    dtbMatchNodeName sampleBlob (literal "mem") 100
      = .ok ⟨0x8220004c, 0x82200048, 0, 0x82200050⟩ ∧
    dtbMatchNodeName sampleBlob (literal "uart") 100 = .ok {} := by
  have hb : sampleBlob.Encodes sample 12 := ⟨⟨_, rfl⟩, ⟨_, rfl⟩⟩
  have hmem : PointsTo (literal "mem") (ascii "mem") := pointsTo_literal rfl
  have huart : PointsTo (literal "uart") (ascii "uart") := pointsTo_literal rfl
  have hfuel : sample.flatten.length ≤ 100 := by decide
  exact ⟨(dtb_match_node_name_first hb hmem hfuel).1, (dtb_match_node_name_first hb huart hfuel).1⟩

end RvKernel.Dtb
