/-
# `FDT_NOP`s

`FDT_NOP`s may stand before any token of the structure block that begins or ends a node or begins
a property.  Two blocks with the same tree, but for its `FDT_NOP`s, have the same nodes and
properties at different addresses.  A node is known by its path, the numbers of the subnodes that
lead to it (`Node.follow`), a property by its name, its length and its value.

The loops skip `FDT_NOP`s wherever they read a token.  The entry point does not: a block with an
`FDT_NOP` before its root is searched as if it were empty.  So the two blocks are read alike just if
both have one there, or neither has (`dtb_nops_iff`).
-/
import Mathlib.Data.List.Forall2
import RvKernel.Dtb.Property

namespace RvKernel.Dtb

open Bytes Text

/-! ## 1. Trees without their `FDT_NOP`s -/

def Property.erase (prop : Property) : Property := { prop with nops := 0 }

mutual

def Node.erase : Node → Node
  | .mk name props children _ => .mk name (props.map Property.erase) children.erase 0

def Nodes.erase : Nodes → Nodes
  | .nil => .nil
  | .cons _ node rest => .cons 0 node.erase rest.erase

end

mutual

/-- The node at the end of a path, with its address. -/
def Node.follow : Node → ℕ → List ℕ → Option (ℕ × Node)
  | t, p, [] => some (p, t)
  | .mk name props children _, p, i :: path =>
    children.follow (p + 4 + name.flatten.length + (flattenProps props).length) i path

def Nodes.follow : Nodes → ℕ → ℕ → List ℕ → Option (ℕ × Node)
  | .nil, _, _, _ => none
  | .cons nops node _, p, 0, path => node.follow (p + 4 * nops) path
  | .cons nops node rest, p, i + 1, path =>
    rest.follow (p + 4 * nops + node.flatten.length) i path

end

theorem Node.name_of_erase {t t' : Node} (h : t.erase = t'.erase) : t.name = t'.name := by
  obtain ⟨name, props, children, nops⟩ := t
  obtain ⟨name', props', children', nops'⟩ := t'
  rw [Node.erase, Node.erase] at h
  injection h

theorem Node.props_of_erase {t t' : Node} (h : t.erase = t'.erase) :
    t.props.map Property.erase = t'.props.map Property.erase := by
  obtain ⟨name, props, children, nops⟩ := t
  obtain ⟨name', props', children', nops'⟩ := t'
  rw [Node.erase, Node.erase] at h
  injection h

mutual

/-- **The nodes of the two trees correspond**, each to the one at the end of the same path. -/
theorem Node.nodes_like : ∀ (t t' : Node) (p p' : ℕ), t.erase = t'.erase →
    List.Forall₂ (fun v v' => v.2.erase = v'.2.erase ∧
      ∃ path, t.follow p path = some v ∧ t'.follow p' path = some v') (t.nodes p) (t'.nodes p')
  | .mk name props children nops, .mk name' props' children' nops', p, p', h => by
    have herase := h
    rw [Node.erase, Node.erase] at h
    injection h with hname hprops hchildren
    rw [Node.nodes, Node.nodes]
    refine .cons ⟨herase, [], rfl, rfl⟩ ?_
    refine (children.nodes_like children' _ _ hchildren).imp fun v v' hv => ?_
    obtain ⟨hlike, i, path, hfollow, hfollow'⟩ := hv
    exact ⟨hlike, i :: path, hfollow, hfollow'⟩

theorem Nodes.nodes_like : ∀ (ts ts' : Nodes) (p p' : ℕ), ts.erase = ts'.erase →
    List.Forall₂ (fun v v' => v.2.erase = v'.2.erase ∧
      ∃ i path, ts.follow p i path = some v ∧ ts'.follow p' i path = some v')
      (ts.nodes p) (ts'.nodes p')
  | .nil, .nil, _, _, _ => .nil
  | .nil, .cons _ _ _, _, _, h => by
    rw [Nodes.erase, Nodes.erase] at h
    cases h
  | .cons _ _ _, .nil, _, _, h => by
    rw [Nodes.erase, Nodes.erase] at h
    cases h
  | .cons nops t ts, .cons nops' t' ts', p, p', h => by
    rw [Nodes.erase, Nodes.erase] at h
    injection h with _ ht hts
    rw [Nodes.nodes, Nodes.nodes]
    refine List.rel_append ?_ ?_
    · refine (t.nodes_like t' _ _ ht).imp fun v v' hv => ?_
      obtain ⟨hlike, path, hfollow, hfollow'⟩ := hv
      exact ⟨hlike, 0, path, hfollow, hfollow'⟩
    · refine (ts.nodes_like ts' _ _ hts).imp fun v v' hv => ?_
      obtain ⟨hlike, i, path, hfollow, hfollow'⟩ := hv
      exact ⟨hlike, i + 1, path, hfollow, hfollow'⟩

end

/-- The properties of two nodes correspond likewise. -/
theorem propsAt_like {props props' : List Property}
    (h : props.map Property.erase = props'.map Property.erase) (p p' : ℕ) :
    List.Forall₂ (fun u u' => u.2.erase = u'.2.erase) (propsAt props p) (propsAt props' p') := by
  induction props generalizing props' p p' with
  | nil =>
    cases props' with
    | nil => exact .nil
    | cons prop' props' => cases h
  | cons prop props ih =>
    cases props' with
    | nil => cases h
    | cons prop' props' =>
      injection h with hprop hprops
      exact .cons hprop (ih hprops _ _)

/-- A search in two lists that correspond finds elements that correspond, or nothing in both. -/
theorem find?_like {α β : Type} {R : α → β → Prop} {f : α → Bool} {g : β → Bool} {l : List α}
    {l' : List β} (h : List.Forall₂ R l l') (hfg : ∀ a c, R a c → f a = g c) :
    l.find? f = none ∧ l'.find? g = none ∨
      ∃ a c, l.find? f = some a ∧ l'.find? g = some c ∧ R a c := by
  induction h with
  | nil => exact Or.inl ⟨rfl, rfl⟩
  | @cons a c l l' hac _ ih =>
    cases hf : f a with
    | true =>
      refine Or.inr ⟨a, c, List.find?_cons_of_pos hf, List.find?_cons_of_pos ?_, hac⟩
      rw [← hfg a c hac, hf]
    | false =>
      rw [List.find?_cons_of_neg (by simp [hf]),
        List.find?_cons_of_neg (by simp [← hfg a c hac, hf])]
      exact ih

/-! ## 2. Blocks -/

/-- The blob has a structure block with `lead` many `FDT_NOP`s before the root, and a strings
block. -/
structure Blob.HoldsBlock (b : Blob) (lead : ℕ) (root : Node) (strings : List U8)
    (off strs : U32) : Prop where
  header : b.Holds (b.dtb + 8) (be32 off)
  structs : b.Holds (b.dtb + off.toNat) (flattenNops lead ++ root.flatten)
  strings_header : b.Holds (b.dtb + 12) (be32 strs)
  strings_block : b.Holds (b.dtb + strs.toNat) strings
  named : ∀ v ∈ root.nodes (b.dtb + off.toNat + 4 * lead), ∀ prop ∈ v.2.props,
    0 ∈ strings.drop prop.nameoff.toNat

variable {b b' : Blob} {root root' : Node} {strings : List U8} {off strs off' strs' : U32}
  {lead lead' : ℕ}

theorem Blob.HoldsBlock.wellFormed (h : b.HoldsBlock 0 root strings off strs) :
    b.WellFormed root strings off strs where
  header := h.header
  structs := h.structs
  strings_header := h.strings_header
  strings_block := h.strings_block
  named := h.named

/-- **A block with an `FDT_NOP` before its root is not searched at all.** -/
theorem dtbMatchNodeName_lead (h : b.HoldsBlock lead root strings off strs) (hlead : lead ≠ 0)
    (name : Ptr) {fuel : ℕ} (hfuel : 0 < fuel) : dtbMatchNodeName b name fuel = .ok {} := by
  obtain ⟨k, rfl⟩ := Nat.exists_eq_succ_of_ne_zero hlead
  obtain ⟨n, rfl⟩ := Nat.exists_eq_succ_of_ne_zero hfuel.ne'
  have hnop := h.structs
  rw [flattenNops_succ, List.append_assoc] at hnop
  rw [dtbMatchNodeName, Blob.structs, h.header.loadBe]
  simp only [ok_bind, pure_eq, dtbMatchNodeNameRec, hnop.left.token]
  rfl

/-- Two results that are the same property: the zero one, or one of the same name, length and
value. -/
def SameProp (b b' : Blob) (prop prop' : DtbProp) : Prop :=
  prop = {} ∧ prop' = {} ∨ ∃ (nm value : List U8),
    PointsTo (b.ptr prop.name) nm ∧ PointsTo (b'.ptr prop'.name) nm ∧
    prop.len.toNat = value.length ∧ prop'.len.toNat = value.length ∧
    b.Holds prop.value value ∧ b'.Holds prop'.value value

/-- **The same search in two blobs**, whose roots are at `p` and `p'`: it finds the node at the end
of the same path, and in that node the same property, whatever the names. -/
def SameSearch (b b' : Blob) (root root' : Node) (p p' : ℕ) : Prop :=
  ∀ (name : Ptr) (nm : List U8), PointsTo name nm →
    ∀ fuel, root.flatten.length ≤ fuel → root'.flatten.length ≤ fuel →
    ∃ node node', dtbMatchNodeName b name fuel = .ok node ∧
      dtbMatchNodeName b' name fuel = .ok node' ∧
      (node = {} ∧ node' = {} ∨
        ∃ path v v', root.follow p path = some v ∧ root'.follow p' path = some v' ∧
          node = v.2.at_ v.1 ∧ node' = v'.2.at_ v'.1 ∧
          ∀ (q : Ptr) (pnm : List U8), PointsTo q pnm →
            ∃ prop prop', dtbNodeMatchProperty b node q fuel = .ok prop ∧
              dtbNodeMatchProperty b' node' q fuel = .ok prop' ∧ SameProp b b' prop prop')

/-! ## 3. The same search -/

/-- Nodes that correspond have the same properties. -/
theorem same_prop (hb : b.WellFormed root strings off strs)
    (hb' : b'.WellFormed root' strings off' strs') {v v' : ℕ × Node}
    (hv : v ∈ root.nodes (b.dtb + off.toNat)) (hv' : v' ∈ root'.nodes (b'.dtb + off'.toNat))
    (hlike : v.2.erase = v'.2.erase) {fuel : ℕ} (hfuel : root.flatten.length ≤ fuel)
    (hfuel' : root'.flatten.length ≤ fuel) {q : Ptr} {pnm : List U8} (hq : PointsTo q pnm) :
    ∃ prop prop', dtbNodeMatchProperty b (v.2.at_ v.1) q fuel = .ok prop ∧
      dtbNodeMatchProperty b' (v'.2.at_ v'.1) q fuel = .ok prop' ∧ SameProp b b' prop prop' := by
  obtain ⟨hrun, hholds⟩ := run_dtbNodeMatchProperty hb hv hq hfuel
  obtain ⟨hrun', hholds'⟩ := run_dtbNodeMatchProperty hb' hv' hq hfuel'
  refine ⟨_, _, hrun, hrun', ?_⟩
  have hprops := propsAt_like (Node.props_of_erase hlike) (v.2.at_ v.1).propStart
    (v'.2.at_ v'.1).propStart
  have hname : ∀ u u' : ℕ × Property, u.2.erase = u'.2.erase →
      decide (nameAt strings u.2.nameoff = pnm) = decide (nameAt strings u'.2.nameoff = pnm) := by
    intro u u' hu
    injection hu with _ hnameoff
    rw [hnameoff]
  rcases find?_like hprops hname with ⟨hnone, hnone'⟩ | ⟨u, u', hsome, hsome', hu⟩
  · rw [firstProp, hnone, firstProp, hnone']
    exact Or.inl ⟨rfl, rfl⟩
  · rw [firstProp, hsome, firstProp, hsome']
    injection hu with _ hnameoff hvalue
    obtain ⟨hpoints, hlen, hat⟩ := hb.found_prop hv hholds (List.mem_of_find?_eq_some hsome)
    obtain ⟨hpoints', hlen', hat'⟩ := hb'.found_prop hv' hholds' (List.mem_of_find?_eq_some hsome')
    rw [← hnameoff] at hpoints'
    rw [← hvalue] at hlen' hat'
    exact Or.inr ⟨_, _, hpoints, hpoints', hlen, hlen', hat, hat'⟩

/-- The two trees are searched alike. -/
theorem same_search (hb : b.WellFormed root strings off strs)
    (hb' : b'.WellFormed root' strings off' strs') (hlike : root.erase = root'.erase) :
    SameSearch b b' root root' (b.dtb + off.toNat) (b'.dtb + off'.toNat) := by
  intro name nm hname fuel hfuel hfuel'
  refine ⟨_, _, run_dtbMatchNodeName hb.toEncodes hname hfuel,
    run_dtbMatchNodeName hb'.toEncodes hname hfuel', ?_⟩
  have hnodes := root.nodes_like root' (b.dtb + off.toNat) (b'.dtb + off'.toNat) hlike
  have hnm : ∀ v v' : ℕ × Node, (v.2.erase = v'.2.erase ∧
      ∃ path, root.follow (b.dtb + off.toNat) path = some v ∧
        root'.follow (b'.dtb + off'.toNat) path = some v') →
      decide (v.2.name.bytes = nm) = decide (v'.2.name.bytes = nm) := by
    rintro v v' ⟨herase, -⟩
    rw [Node.name_of_erase herase]
  rcases find?_like hnodes hnm with ⟨hnone, hnone'⟩ | ⟨v, v', hsome, hsome', hv⟩
  · rw [firstNamed, hnone, firstNamed, hnone']
    exact Or.inl ⟨rfl, rfl⟩
  · rw [firstNamed, hsome, firstNamed, hsome']
    obtain ⟨herase, path, hfollow, hfollow'⟩ := hv
    refine Or.inr ⟨path, v, v', hfollow, hfollow', rfl, rfl, fun q pnm hq => ?_⟩
    exact same_prop hb hb' (List.mem_of_find?_eq_some hsome) (List.mem_of_find?_eq_some hsome')
      herase hfuel hfuel' hq

/-- A root is found by its name. -/
theorem found_root (hb : b.WellFormed root strings off strs) {fuel : ℕ}
    (hfuel : root.flatten.length ≤ fuel) :
    dtbMatchNodeName b (root.name.bytes ++ [0]) fuel = .ok (root.at_ (b.dtb + off.toNat)) := by
  have hname := pointsTo_append_nul root.name.nul_free []
  rw [run_dtbMatchNodeName hb.toEncodes hname hfuel]
  obtain ⟨name, props, children, nops⟩ := root
  rw [Node.nodes, firstNamed, List.find?_cons_of_pos (by simp [Node.name])]
  rfl

/-- A node that is found is not the zero node. -/
theorem Node.at_ne (t : Node) (p : ℕ) : t.at_ p ≠ {} := by
  intro h
  injection h with hname
  omega

theorem SameProp.symm {prop prop' : DtbProp} (h : SameProp b b' prop prop') :
    SameProp b' b prop' prop := by
  rcases h with ⟨h, h'⟩ | ⟨nm, value, hn, hn', hl, hl', hv, hv'⟩
  · exact Or.inl ⟨h', h⟩
  · exact Or.inr ⟨nm, value, hn', hn, hl', hl, hv', hv⟩

theorem SameSearch.symm {p p' : ℕ} (h : SameSearch b b' root root' p p') :
    SameSearch b' b root' root p' p := by
  intro name nm hname fuel hfuel hfuel'
  obtain ⟨node, node', hrun, hrun', hcases⟩ := h name nm hname fuel hfuel' hfuel
  refine ⟨node', node, hrun', hrun, ?_⟩
  rcases hcases with ⟨h₀, h₀'⟩ | ⟨path, v, v', hv, hv', hnode, hnode', hprops⟩
  · exact Or.inl ⟨h₀', h₀⟩
  · refine Or.inr ⟨path, v', v, hv', hv, hnode', hnode, fun q pnm hq => ?_⟩
    obtain ⟨prop, prop', hprop, hprop', hsame⟩ := hprops q pnm hq
    exact ⟨prop', prop, hprop', hprop, hsame.symm⟩

/-- Where only one block has an `FDT_NOP` before the root, the root is found in the other one. -/
theorem SameSearch.lead_eq_zero {p p' : ℕ} (hsame : SameSearch b b' root root' p p')
    (hb : b.HoldsBlock 0 root strings off strs)
    (hb' : b'.HoldsBlock lead' root' strings off' strs') : lead' = 0 := by
  by_contra hlead
  have hfuel := le_max_left root.flatten.length root'.flatten.length
  have hpos := lt_of_lt_of_le root.length_flatten_pos hfuel
  obtain ⟨node, node', hrun, hrun', hcases⟩ := hsame _ _
    (pointsTo_append_nul root.name.nul_free []) _ hfuel (le_max_right _ _)
  cases hrun.symm.trans (found_root hb.wellFormed hfuel)
  cases hrun'.symm.trans (dtbMatchNodeName_lead hb' hlead _ hpos)
  rcases hcases with ⟨hzero, -⟩ | ⟨-, v, v', -, -, -, hzero, -⟩
  · exact root.at_ne _ hzero
  · exact v'.2.at_ne _ hzero.symm

/-- **Two blocks with the same tree, but for its `FDT_NOP`s, are read alike just if both have one
before the root, or neither has.** -/
theorem dtb_nops_iff (hb : b.HoldsBlock lead root strings off strs)
    (hb' : b'.HoldsBlock lead' root' strings off' strs') (hlike : root.erase = root'.erase) :
    SameSearch b b' root root' (b.dtb + off.toNat + 4 * lead) (b'.dtb + off'.toNat + 4 * lead') ↔
      (lead = 0 ↔ lead' = 0) := by
  constructor
  · intro hsame
    constructor
    · rintro rfl
      exact hsame.lead_eq_zero hb hb'
    · rintro rfl
      exact hsame.symm.lead_eq_zero hb' hb
  · intro hiff
    by_cases hlead : lead = 0
    · obtain rfl := hlead
      obtain rfl := hiff.mp rfl
      exact same_search hb.wellFormed hb'.wellFormed hlike
    · -- neither block is searched
      intro name nm hname fuel hfuel hfuel'
      have hpos := lt_of_lt_of_le root.length_flatten_pos hfuel
      exact ⟨{}, {}, dtbMatchNodeName_lead hb hlead name hpos,
        dtbMatchNodeName_lead hb' (mt hiff.mpr hlead) name hpos, Or.inl ⟨rfl, rfl⟩⟩

theorem bootBlob_holdsBlock : bootBlob.HoldsBlock 0 bootTree bootStrings 16 108 where
  header := ⟨_, rfl⟩
  structs := ⟨_, rfl⟩
  strings_header := ⟨_, rfl⟩
  strings_block := ⟨_, rfl⟩
  named := by decide

/-- The tree of `bootBlob` with more `FDT_NOP`s. -/
def nopTree : Node := chosenTree 1 1 1 2 1 3 1 1

def nopBlob : Blob where
  dtb := 0x82200000
  bytes := List.replicate 8 0 ++ (be32 16 ++ (be32 144 ++ (nopTree.flatten ++ bootStrings)))
  dtb_pos := sampleBlob.dtb_pos
  fits := by decide +kernel

theorem nopBlob_holdsBlock : nopBlob.HoldsBlock 0 nopTree bootStrings 16 144 where
  header := ⟨_, rfl⟩
  structs := ⟨_, rfl⟩
  strings_header := ⟨_, rfl⟩
  strings_block := ⟨_, rfl⟩
  named := by decide

/-- They are read alike. -/
theorem dtb_nops_boot : SameSearch bootBlob nopBlob bootTree nopTree 0x82200010 0x82200010 :=
  (dtb_nops_iff bootBlob_holdsBlock nopBlob_holdsBlock rfl).mpr Iff.rfl

/-- The tree of `bootBlob` behind an `FDT_NOP`. -/
def leadBlob : Blob where
  dtb := 0x82200000
  bytes := List.replicate 8 0 ++ (be32 16 ++ (be32 112 ++
    (flattenNops 1 ++ bootTree.flatten ++ bootStrings)))
  dtb_pos := sampleBlob.dtb_pos
  fits := by decide +kernel

/-- It is searched in vain. -/
theorem dtb_nop_before_root : leadBlob.HoldsBlock 1 bootTree bootStrings 16 112 ∧
    dtbMatchNodeName bootBlob (literal "chosen") 200
      = .ok ⟨0x82200038, 0x82200034, 0, 0x82200040⟩ ∧
    dtbMatchNodeName leadBlob (literal "chosen") 200 = .ok {} ∧
    ¬ SameSearch bootBlob leadBlob bootTree bootTree 0x82200010 0x82200014 := by
  have hfound : dtbMatchNodeName bootBlob (literal "chosen") 200
      = .ok ⟨0x82200038, 0x82200034, 0, 0x82200040⟩ := by decide
  have hlost : dtbMatchNodeName leadBlob (literal "chosen") 200 = .ok {} := by decide
  refine ⟨⟨⟨_, rfl⟩, ⟨_, rfl⟩, ⟨_, rfl⟩, ⟨_, rfl⟩, by decide⟩, hfound, hlost, fun hsame => ?_⟩
  have hname : PointsTo (literal "chosen") (ascii "chosen") := pointsTo_literal rfl
  obtain ⟨node, node', hrun, hrun', hcases⟩ := hsame _ _ hname 200 (by decide) (by decide)
  cases hrun.symm.trans hfound
  cases hrun'.symm.trans hlost
  rcases hcases with ⟨hzero, -⟩ | ⟨-, v, v', -, -, -, hzero, -⟩
  · cases hzero
  · exact v'.2.at_ne _ hzero.symm

end RvKernel.Dtb
