/-
# The properties of a node

`dtb_node_match_property` on a flattened tree.  It starts at the `prop_start` that the search for
the node has computed from the length of its name, and reads records until it meets the begin of a
subnode or the end of the node.  So it sees the properties of that node, and no others: a value
is skipped by its length, whatever its bytes look like.

The names are offsets into the strings block, which the header points to.  A blob is well-formed if
every offset in the tree leads to a string in that block (`Blob.WellFormed`).
-/
import RvKernel.Dtb.Search

namespace RvKernel.Dtb

open Bytes Text

/-! ## 1. Names -/

def Node.props : Node → List Property
  | .mk _ props _ _ => props

/-- The string at an offset of the strings block. -/
def nameAt (strings : List U8) (nameoff : U32) : List U8 :=
  (strings.drop nameoff.toNat).takeWhile (· ≠ 0)

/-- **A well-formed blob**: a flattened tree, and the block of the strings that name its
properties. -/
structure Blob.WellFormed (b : Blob) (root : Node) (strings : List U8) (off strs : U32) : Prop
    extends b.Encodes root off where
  strings_header : b.Holds (b.dtb + 12) (be32 strs)
  strings_block : b.Holds (b.dtb + strs.toNat) strings
  named : ∀ v ∈ root.nodes (b.dtb + off.toNat), ∀ prop ∈ v.2.props,
    0 ∈ strings.drop prop.nameoff.toNat

variable {b : Blob} {p : ℕ}

/-- A string that ends inside a block. -/
theorem pointsTo_of_mem {l : List U8} (h : (0 : U8) ∈ l) (rest : List U8) :
    PointsTo (l ++ rest) (l.takeWhile (· ≠ 0)) := by
  induction l with
  | nil => cases h
  | cons c l ih =>
    by_cases hc : c = 0
    · subst hc
      exact .nil _
    · rw [List.takeWhile_cons_of_pos (by simpa using hc)]
      exact (ih ((List.mem_cons.mp h).resolve_left fun h0 => hc h0.symm)).cons hc

theorem pointsTo_nameAt {strings : List U8} {nameoff : U32} (h : b.Holds p strings)
    (h0 : 0 ∈ strings.drop nameoff.toNat) :
    PointsTo (b.ptr (p + nameoff.toNat)) (nameAt strings nameoff) := by
  have hle : nameoff.toNat ≤ strings.length := by
    by_contra hgt
    rw [List.drop_of_length_le (by omega)] at h0
    cases h0
  rw [← List.take_append_drop nameoff.toNat strings] at h
  have hright := h.right
  rw [List.length_take, Nat.min_eq_left hle] at hright
  obtain ⟨rest, hrest⟩ := hright
  rw [← hrest]
  exact pointsTo_of_mem h0 rest

/-! ## 2. Records -/

/-- The properties of a list with the addresses that their records have in its flattening. -/
def propsAt : List Property → ℕ → List (ℕ × Property)
  | [], _ => []
  | prop :: props, p =>
    (p + 4 * prop.nops, prop) :: propsAt props (p + prop.flatten.length)

/-- The first property of a list with a given name. -/
def firstProp (strings nm : List U8) (props : List (ℕ × Property)) : Option (ℕ × Property) :=
  props.find? fun v => nameAt strings v.2.nameoff = nm

/-- What `dtb_node_match_property` should return for a property whose record is at `p`. -/
def Property.at_ (block p : ℕ) (prop : Property) : DtbProp where
  name := block + prop.nameoff.toNat
  len := BitVec.ofNat 64 prop.value.length
  value := p + 12

section Records

variable {q : Ptr} {nm strings : List U8} {block : ℕ}

theorem matchProps_nops {k : ℕ} (h : b.Holds p (flattenNops k)) (n : ℕ) :
    matchProps b q (n + k) p = matchProps b q n (p + 4 * k) := by
  refine loop_nops (fun htoken m => ?_) h n
  rw [matchProps, htoken, ok_bind]

/-- One record: it is a match, or it is skipped. -/
theorem matchProps_record {prop : Property} (h : b.Holds p prop.record)
    (hblock : b.strings = .ok block) {s : List U8}
    (hs : PointsTo (b.ptr (block + prop.nameoff.toNat)) s) (hq : PointsTo q nm) (n : ℕ) :
    matchProps b q (n + 1) p = if s = nm then .ok (prop.at_ block p)
      else matchProps b q n (p + prop.record.length) := by
  have hlen := prop.value_lt
  obtain ⟨htoken, hlength, hnameoff⟩ := h.record
  obtain ⟨d, hd, hiff⟩ := run_strcmp hs hq
  have hwide : (BitVec.ofNat 32 prop.value.length).setWidth 64
      = BitVec.ofNat 64 prop.value.length := by
    apply BitVec.eq_of_toNat_eq
    rw [BitVec.toNat_setWidth, BitVec.toNat_ofNat, BitVec.toNat_ofNat]
    omega
  rw [matchProps, htoken, ok_bind]
  simp only [hlength, hnameoff, hblock, ok_bind, pure_eq, hd, hiff, hwide]
  rw [toNat_divRoundUp_four (by decide) (by omega), prop.length_record, Nat.add_assoc]
  rfl

/-- The scan ends at the begin of a subnode, or at the end of the node. -/
theorem matchProps_stop {token : StructToken} (h : b.Holds p token.flatten)
    (htoken : token = .beginNode ∨ token = .endNode) (n : ℕ) :
    matchProps b q (n + 1) p = .ok {} := by
  rw [matchProps, h.token, ok_bind]
  rcases htoken with rfl | rfl
  · rfl
  · rfl

/-- **The scan of a list of properties**: it returns the first one of that name, or goes on behind
the list. -/
theorem matchProps_props {props : List Property} (h : b.Holds p (flattenProps props))
    (hblock : b.strings = .ok block)
    (hs : ∀ prop ∈ props,
      PointsTo (b.ptr (block + prop.nameoff.toNat)) (nameAt strings prop.nameoff))
    (hq : PointsTo q nm) : ∃ k ≤ (flattenProps props).length, ∀ n, matchProps b q (n + k) p =
      match firstProp strings nm (propsAt props p) with
      | some v => .ok (v.2.at_ block v.1)
      | none => matchProps b q n (p + (flattenProps props).length) := by
  induction props generalizing p with
  | nil => exact ⟨0, Nat.zero_le _, fun _ => rfl⟩
  | cons prop props ih =>
    have hcons : flattenProps (prop :: props) = prop.flatten ++ flattenProps props := rfl
    rw [hcons] at h ⊢
    obtain ⟨k, hk, heq⟩ := ih h.right fun prop' hmem => hs prop' (List.mem_cons_of_mem prop hmem)
    have hrecord := h.left.right
    rw [length_flattenNops] at hrecord
    refine ⟨k + 1 + prop.nops, ?_, ?_⟩
    · rw [List.length_append, prop.length_flatten, prop.length_record]
      omega
    · intro n
      have hrun : matchProps b q (n + (k + 1 + prop.nops)) p
          = matchProps b q (n + k + 1) (p + 4 * prop.nops) := by
        rw [← matchProps_nops h.left.left]
        congr 1
        omega
      rw [hrun, matchProps_record hrecord hblock (hs prop List.mem_cons_self) hq, firstProp,
        propsAt]
      by_cases hnm : nameAt strings prop.nameoff = nm
      · rw [if_pos hnm, List.find?_cons_of_pos (by simpa using hnm)]
      · have hnext : p + 4 * prop.nops + prop.record.length = p + prop.flatten.length := by
          rw [prop.length_flatten, Nat.add_assoc]
        rw [if_neg hnm, List.find?_cons_of_neg (by simpa using hnm), hnext, heq, List.length_append,
          Nat.add_assoc]
        rfl

/-- **The scan of a node** returns the first of its own properties of that name, or zeros. -/
theorem run_matchProps {props : List Property} {ts : Nodes} {k n : ℕ}
    (h : b.Holds p (flattenProps props ++
      (ts.flatten ++ (flattenNops k ++ StructToken.endNode.flatten))))
    (hblock : b.strings = .ok block)
    (hs : ∀ prop ∈ props,
      PointsTo (b.ptr (block + prop.nameoff.toNat)) (nameAt strings prop.nameoff))
    (hq : PointsTo q nm) (hn : (flattenProps props).length + ts.flatten.length + 4 * k + 1 ≤ n) :
    matchProps b q n p = .ok ((firstProp strings nm (propsAt props p)).elim {}
      fun v => v.2.at_ block v.1) := by
  obtain ⟨j, token, hnops, hstop, htoken, hj⟩ := Nodes.holds_head h.right
  obtain ⟨i, hi, hprops⟩ := matchProps_props h.left hblock hs hq
  obtain ⟨m, rfl⟩ : ∃ m, n = m + 1 + j + i := ⟨n - i - j - 1, by omega⟩
  rw [hprops]
  cases hfirst : firstProp strings nm (propsAt props p) with
  | some v => rfl
  | none =>
    simp only [Option.elim_none]
    rw [matchProps_nops hnops, matchProps_stop hstop htoken]

end Records

theorem map_snd_propsAt (props : List Property) (p : ℕ) :
    (propsAt props p).map Prod.snd = props := by
  induction props generalizing p with
  | nil => rfl
  | cons prop props ih => rw [propsAt, List.map_cons, ih]

theorem exists_mem_propsAt {props : List Property} {prop : Property} (h : prop ∈ props) (p : ℕ) :
    ∃ a, (a, prop) ∈ propsAt props p := by
  rw [← map_snd_propsAt props p] at h
  obtain ⟨v, hv, rfl⟩ := List.mem_map.mp h
  exact ⟨v.1, hv⟩

theorem mem_of_mem_propsAt {props : List Property} {v : ℕ × Property} (h : v ∈ propsAt props p) :
    v.2 ∈ props := by
  have hmem := List.mem_map_of_mem (f := Prod.snd) h
  rwa [map_snd_propsAt] at hmem

/-- The value of a property stands behind the header of its record. -/
theorem Property.holds_value {props : List Property} (h : b.Holds p (flattenProps props))
    {v : ℕ × Property} (hv : v ∈ propsAt props p) :
    v.2 ∈ props ∧ b.Holds (v.1 + 12) v.2.value := by
  induction props generalizing p with
  | nil => cases hv
  | cons prop props ih =>
    have hcons : flattenProps (prop :: props) = prop.flatten ++ flattenProps props := rfl
    rw [hcons] at h
    rw [propsAt] at hv
    rcases List.mem_cons.mp hv with rfl | hv
    · have hrecord := h.left.right
      rw [length_flattenNops] at hrecord
      have hvalue := hrecord.right.right.right
      rw [length_flatten_token, length_be32, length_be32, padWord] at hvalue
      exact ⟨List.mem_cons_self, hvalue.left⟩
    · obtain ⟨hmem, hvalue⟩ := ih h.right hv
      exact ⟨List.mem_cons_of_mem prop hmem, hvalue⟩

/-! ## 3. The property of a node that was found -/

/-- The scan from the `prop_start` of a node of the tree. -/
theorem run_dtbNodeMatchProperty {root : Node} {strings : List U8} {off strs : U32}
    (hb : b.WellFormed root strings off strs) {v : ℕ × Node}
    (hv : v ∈ root.nodes (b.dtb + off.toNat)) {q : Ptr} {nm : List U8} (hq : PointsTo q nm) {n : ℕ}
    (hn : root.flatten.length ≤ n) :
    dtbNodeMatchProperty b (v.2.at_ v.1) q n
      = .ok ((firstProp strings nm (propsAt v.2.props (v.2.at_ v.1).propStart)).elim {}
        fun u => u.2.at_ (b.dtb + strs.toNat) u.1) ∧
    b.Holds (v.2.at_ v.1).propStart (flattenProps v.2.props) := by
  obtain ⟨hholds, hle⟩ := root.holds_of_mem hb.structs hv
  have hnames := hb.named v hv
  have hblock : b.strings = .ok (b.dtb + strs.toNat) := by
    rw [Blob.strings, hb.strings_header.loadBe]
    rfl
  obtain ⟨a, name, props, children, nops⟩ := v
  rw [Node.flatten] at hholds hle
  simp only [List.length_append, length_flatten_token, length_flattenNops] at hle
  have hprops := hholds.right.right
  rw [length_flatten_token] at hprops
  have hfit : (flattenProps props).length + children.flatten.length + 4 * nops + 1 ≤ n := by omega
  refine ⟨run_matchProps hprops hblock (fun prop hprop => ?_) hq hfit, hprops.left⟩
  exact pointsTo_nameAt hb.strings_block (hnames prop hprop)

/-- The property that is found. -/
theorem Blob.WellFormed.found_prop {root : Node} {strings : List U8} {off strs : U32}
    (hb : b.WellFormed root strings off strs) {v : ℕ × Node}
    (hv : v ∈ root.nodes (b.dtb + off.toNat)) {p : ℕ} (hholds : b.Holds p (flattenProps v.2.props))
    {u : ℕ × Property} (hu : u ∈ propsAt v.2.props p) :
    PointsTo (b.ptr (u.2.at_ (b.dtb + strs.toNat) u.1).name) (nameAt strings u.2.nameoff) ∧
      (u.2.at_ (b.dtb + strs.toNat) u.1).len.toNat = u.2.value.length ∧
      b.Holds (u.2.at_ (b.dtb + strs.toNat) u.1).value u.2.value := by
  obtain ⟨hmem, hvalue⟩ := Property.holds_value hholds hu
  have hlt := u.2.value_lt
  refine ⟨pointsTo_nameAt hb.strings_block (hb.named v hv u.2 hmem), ?_, hvalue⟩
  rw [Property.at_, BitVec.toNat_ofNat]
  omega

/-- **`dtb_node_match_property` returns the first property of that name of the very node that
`dtb_match_node_name` has found**, with its length and its value, and zeros if the node has none. -/
theorem dtb_node_match_property_first {root : Node} {strings : List U8} {off strs : U32}
    (hb : b.WellFormed root strings off strs) {name : Ptr} {nm : List U8} (hname : PointsTo name nm)
    {fuel : ℕ} (hfuel : root.flatten.length ≤ fuel) {r : DtbNodeSearchResult}
    (hr : dtbMatchNodeNameRec b name fuel (b.dtb + off.toNat) = .ok r) (hmatch : r.match_ = true) :
    ∃ v ∈ root.nodes (b.dtb + off.toNat), v.2.name.bytes = nm ∧ r.node = v.2.at_ v.1 ∧
      dtbMatchNodeName b name fuel = .ok r.node ∧
      ∀ {q : Ptr} {pnm : List U8}, PointsTo q pnm → ∃ prop,
        dtbNodeMatchProperty b r.node q fuel = .ok prop ∧
        match firstProp strings pnm (propsAt v.2.props r.node.propStart) with
        | none => prop = {} ∧ ∀ u ∈ v.2.props, nameAt strings u.nameoff ≠ pnm
        | some u => u.2 ∈ v.2.props ∧ prop.name = b.dtb + strs.toNat + u.2.nameoff.toNat ∧
          PointsTo (b.ptr prop.name) pnm ∧ prop.len.toNat = u.2.value.length ∧
          prop.value = u.1 + 12 ∧ b.Holds prop.value u.2.value := by
  have hsearch := root.run_search hname hb.structs hfuel
  rw [hr] at hsearch
  injection hsearch with hsearch
  cases hfirst : firstNamed nm (root.nodes (b.dtb + off.toNat)) with
  | none =>
    rw [hsearch, found_of_none hfirst] at hmatch
    cases hmatch
  | some v =>
    rw [found_of_some hfirst] at hsearch
    subst hsearch
    have hv := List.mem_of_find?_eq_some hfirst
    have hnm : v.2.name.bytes = nm := by simpa using List.find?_some hfirst
    refine ⟨v, hv, hnm, rfl, ?_, ?_⟩
    · rw [run_dtbMatchNodeName hb.toEncodes hname hfuel, hfirst]
      rfl
    · intro q pnm hq
      obtain ⟨hrun, hprops⟩ := run_dtbNodeMatchProperty hb hv hq hfuel
      refine ⟨_, hrun, ?_⟩
      simp only
      split
      · rename_i hnone
        rw [hnone]
        refine ⟨rfl, fun u hu => ?_⟩
        obtain ⟨a, ha⟩ := exists_mem_propsAt hu (v.2.at_ v.1).propStart
        simpa using List.find?_eq_none.mp hnone _ ha
      · rename_i u hsome
        rw [hsome]
        have hu := List.mem_of_find?_eq_some hsome
        have hpnm : nameAt strings u.2.nameoff = pnm := by simpa using List.find?_some hsome
        obtain ⟨hpoints, hlen, hvalue⟩ := hb.found_prop hv hprops hu
        rw [hpnm] at hpoints
        exact ⟨(Property.holds_value hprops hu).1, rfl, hpoints, hlen, rfl, hvalue⟩

theorem nul_free_nil : ∀ c ∈ ([] : List U8), c ≠ 0 := List.forall_mem_nil _

/-- A node `chosen`, behind a node with a property `bootargs` of its own, and any numbers of
`FDT_NOP`s. -/
def chosenTree (cpu bootargs cpuEnd chosen seed bootargs' chosenEnd rootEnd : ℕ) : Node :=
  .mk ⟨[], nul_free_nil⟩ []
    (.cons cpu (.mk ⟨ascii "cpu", List.all_iff_forall_prop.mp rfl⟩
        [⟨bootargs, 0, [7], by decide⟩] .nil cpuEnd)
      (.cons chosen (.mk ⟨ascii "chosen", List.all_iff_forall_prop.mp rfl⟩
        [⟨seed, 9, [], by decide⟩, ⟨bootargs', 0, [114, 119, 0], by decide⟩] .nil chosenEnd) .nil))
    rootEnd

def bootTree : Node := chosenTree 0 0 0 0 1 0 1 0

def bootStrings : List U8 := literal "bootargs" ++ literal "seed"

/-- Its blob: a header up to `off_dt_strings`, the structure block and the strings block. -/
def bootBlob : Blob where
  dtb := 0x82200000
  bytes := List.replicate 8 0 ++ (be32 16 ++ (be32 108 ++ (bootTree.flatten ++ bootStrings)))
  dtb_pos := sampleBlob.dtb_pos
  fits := by decide +kernel

theorem bootBlob_wellFormed : bootBlob.WellFormed bootTree bootStrings 16 108 where
  header := ⟨_, rfl⟩
  structs := ⟨_, rfl⟩
  strings_header := ⟨_, rfl⟩
  strings_block := ⟨_, rfl⟩
  named := by decide

/-- The `bootargs` of `chosen`. -/
theorem dtb_node_match_property_bootargs : ∃ prop,
    dtbNodeMatchProperty bootBlob ⟨0x82200038, 0x82200034, 0, 0x82200040⟩ (literal "bootargs") 200
      = .ok prop ∧ prop = ⟨0x8220006c, 3, 0x8220005c⟩ := by
  have hchosen : PointsTo (literal "chosen") (ascii "chosen") := pointsTo_literal rfl
  have hbootargs : PointsTo (literal "bootargs") (ascii "bootargs") := pointsTo_literal rfl
  have hr : dtbMatchNodeNameRec bootBlob (literal "chosen") 200 (bootBlob.dtb + (16 : U32).toNat)
      = .ok ⟨true, ⟨0x82200038, 0x82200034, 0, 0x82200040⟩, 0x82200038⟩ := by decide
  have hscan : dtbNodeMatchProperty bootBlob ⟨0x82200038, 0x82200034, 0, 0x82200040⟩
      (literal "bootargs") 200 = .ok ⟨0x8220006c, 3, 0x8220005c⟩ := by decide
  obtain ⟨v, -, -, -, -, hprop⟩ :=
    dtb_node_match_property_first bootBlob_wellFormed hchosen (by decide) hr rfl
  obtain ⟨prop, hrun, -⟩ := hprop hbootargs
  refine ⟨prop, hrun, ?_⟩
  injection hrun.symm.trans hscan

end RvKernel.Dtb
