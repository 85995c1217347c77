/-
# The lookup at startup (`ktest/startup.c`)

`mmode_startup` of the test kernel searches the blob for the node `chosen`, and then that node for
its `bootargs`.  Neither search fails: a node that is not there comes back as zeros, and so does a
property.  The second result is tested, and `bootargs` is then the empty string.  The first is
not: the scan for the property starts at its `prop_start`, and reads from NULL.

So the two searches together do what each does alone exactly if there is such a node
(`startup_lookup_iff`).
-/
import RvKernel.Dtb.Property

namespace RvKernel.Dtb

open Bytes Text

/-! ## 1. The two searches -/

/-- A property of a node, both by name. -/
def lookup (b : Blob) (nodeName propName : Ptr) (fuel : ℕ) : TM DtbProp := do
  let node ← dtbMatchNodeName b nodeName fuel
  dtbNodeMatchProperty b node propName fuel

/-- What `mmode_startup` sets `bootargs` to: a pointer into the blob, or else `""`. -/
def mmodeStartup (b : Blob) (fuel : ℕ) : TM (Option ℕ) := do
  let prop ← lookup b (literal "chosen") (literal "bootargs") fuel
  return if prop.name ≠ 0 then some prop.value else none

section Tree

variable (strings : List U8) (nodes : List (ℕ × Node)) (nm pnm : List U8)

/-- There is a node of that name. -/
def HasNode : Prop := ∃ v ∈ nodes, v.2.name.bytes = nm

instance : Decidable (HasNode nodes nm) :=
  inferInstanceAs (Decidable (∃ v ∈ nodes, v.2.name.bytes = nm))

/-- There is no such node, or the first one has no such property of its own. -/
def Absent : Prop :=
  ∀ v, firstNamed nm nodes = some v → ∀ prop ∈ v.2.props, nameAt strings prop.nameoff ≠ pnm

/-- **What is expected of the result `r` of a lookup**: it is one, and it says if there is none. -/
structure LooksUp (r : TM DtbProp) : Prop where
  returns : ∃ prop, r = .ok prop
  absent : Absent strings nodes nm pnm → r = .ok {}

end Tree

variable {b : Blob} {root : Node} {strings : List U8} {off strs : U32}

/-! ## 2. With such a node, and without -/

/-- NULL is outside of the blob. -/
theorem loadBe_null (b : Blob) : b.loadBe 0 = .error .read := by
  rw [Blob.loadBe, Blob.load32, Blob.ptr, if_pos b.dtb_pos]
  rfl

/-- A scan that starts at NULL does not survive its first turn. -/
theorem matchProps_null (b : Blob) (name : Ptr) (n : ℕ) :
    matchProps b name (n + 1) 0 = .error .read := by
  rw [matchProps, dtbReadStructToken, loadBe_null]
  rfl

section Search

variable {name q : Ptr} {nm pnm : List U8} {fuel : ℕ}

/-- Without such a node, the scan starts at NULL. -/
theorem lookup_of_none (hb : b.Encodes root off) (hname : PointsTo name nm) (q : Ptr)
    (hfuel : root.flatten.length ≤ fuel) (h : ¬ HasNode (root.nodes (b.dtb + off.toNat)) nm) :
    lookup b name q fuel = .error .read := by
  have hnone : firstNamed nm (root.nodes (b.dtb + off.toNat)) = none := by
    rw [firstNamed_eq_none]
    intro v hv hnm
    exact h ⟨v, hv, hnm⟩
  obtain ⟨n, rfl⟩ : ∃ n, fuel = n + 1 :=
    Nat.exists_eq_succ_of_ne_zero (root.length_flatten_pos.trans_le hfuel).ne'
  rw [lookup, run_dtbMatchNodeName hb hname hfuel, hnone]
  exact matchProps_null b q n

/-- With one, it is the scan of the first such node. -/
theorem lookup_of_first (hb : b.WellFormed root strings off strs) (hname : PointsTo name nm)
    (hq : PointsTo q pnm) (hfuel : root.flatten.length ≤ fuel) {v : ℕ × Node}
    (hv : firstNamed nm (root.nodes (b.dtb + off.toNat)) = some v) :
    lookup b name q fuel
      = .ok ((firstProp strings pnm (propsAt v.2.props (v.2.at_ v.1).propStart)).elim {}
        fun u => u.2.at_ (b.dtb + strs.toNat) u.1) := by
  rw [lookup, run_dtbMatchNodeName hb.toEncodes hname hfuel, hv]
  exact (run_dtbNodeMatchProperty hb (List.mem_of_find?_eq_some hv) hq hfuel).1

theorem firstNamed_of_hasNode {nodes : List (ℕ × Node)} (h : HasNode nodes nm) :
    ∃ v, firstNamed nm nodes = some v := by
  rw [← Option.ne_none_iff_exists', ne_eq, firstNamed_eq_none]
  obtain ⟨v, hv, hnm⟩ := h
  exact fun hnone => hnone v hv hnm

/-- Without a property of that name, none is found. -/
theorem firstProp_eq_none {props : List Property} (p : ℕ)
    (h : ∀ prop ∈ props, nameAt strings prop.nameoff ≠ pnm) :
    firstProp strings pnm (propsAt props p) = none := by
  rw [firstProp, List.find?_eq_none]
  intro u hu
  simpa using h u.2 (mem_of_mem_propsAt hu)

/-- **The lookup of a property by the names of a node and of itself** reads only the blob, and
returns zeros if it is not there, exactly if there is a node of that name. -/
theorem startup_lookup_iff (hb : b.WellFormed root strings off strs) (hname : PointsTo name nm)
    (hq : PointsTo q pnm) (hfuel : root.flatten.length ≤ fuel) :
    LooksUp strings (root.nodes (b.dtb + off.toNat)) nm pnm (lookup b name q fuel) ↔
      HasNode (root.nodes (b.dtb + off.toNat)) nm := by
  constructor
  · intro h
    by_contra hno
    obtain ⟨prop, hprop⟩ := h.returns
    rw [lookup_of_none hb.toEncodes hname q hfuel hno] at hprop
    cases hprop
  · intro h
    obtain ⟨v, hv⟩ := firstNamed_of_hasNode h
    have hrun := lookup_of_first hb hname hq hfuel hv
    refine ⟨⟨_, hrun⟩, fun habsent => ?_⟩
    rw [hrun, firstProp_eq_none _ (habsent v hv)]
    rfl

end Search

/-- The search for a property in a node that lacks it, while another node has it. -/
theorem startup_lookup_elsewhere :
    LooksUp bootStrings (bootTree.nodes (bootBlob.dtb + (16 : U32).toNat)) (ascii "cpu")
      (ascii "seed") (lookup bootBlob (literal "cpu") (literal "seed") 200) ∧
    lookup bootBlob (literal "cpu") (literal "seed") 200 = .ok {} := by
  refine ⟨?_, by decide⟩
  exact (startup_lookup_iff bootBlob_wellFormed (pointsTo_literal rfl) (pointsTo_literal rfl)
    (by decide)).mpr (by decide)

/-- A blob whose tree is a root without anything. -/
def bareTree : Node := .mk ⟨[], nul_free_nil⟩ [] .nil 0

def bareBlob : Blob where
  dtb := 0x82200000
  bytes := List.replicate 8 0 ++ (be32 16 ++ (be32 28 ++ bareTree.flatten))
  dtb_pos := sampleBlob.dtb_pos
  fits := by decide

theorem bareBlob_wellFormed : bareBlob.WellFormed bareTree [] 16 28 where
  header := ⟨_, rfl⟩
  structs := ⟨_, rfl⟩
  strings_header := ⟨_, rfl⟩
  strings_block := List.nil_prefix
  named := by decide

/-- There, startup reads from NULL. -/
theorem startup_lookup_bare :
    bareBlob.WellFormed bareTree [] 16 28 ∧ mmodeStartup bareBlob 100 = .error .read ∧
      ¬ LooksUp [] (bareTree.nodes (bareBlob.dtb + (16 : U32).toNat)) (ascii "chosen")
        (ascii "bootargs") (lookup bareBlob (literal "chosen") (literal "bootargs") 100) := by
  have hread : lookup bareBlob (literal "chosen") (literal "bootargs") 100 = .error .read := by
    decide
  refine ⟨bareBlob_wellFormed, by decide, fun h => ?_⟩
  obtain ⟨prop, hprop⟩ := h.returns
  rw [hread] at hprop
  cases hprop

/-! ## 3. The boot arguments -/

/-- **Startup finds the boot arguments** of the first node `chosen`, or takes none if it has
none. -/
theorem mmodeStartup_bootargs {fuel : ℕ} (hb : b.WellFormed root strings off strs)
    (hfuel : root.flatten.length ≤ fuel) {v : ℕ × Node}
    (hv : firstNamed (ascii "chosen") (root.nodes (b.dtb + off.toNat)) = some v) :
    mmodeStartup b fuel = .ok
      ((firstProp strings (ascii "bootargs") (propsAt v.2.props (v.2.at_ v.1).propStart)).map
        fun u => u.1 + 12) := by
  rw [mmodeStartup,
    lookup_of_first hb (pointsTo_literal rfl) (pointsTo_literal rfl) hfuel hv, ok_bind]
  cases firstProp strings (ascii "bootargs") (propsAt v.2.props (v.2.at_ v.1).propStart) with
  | none => rfl
  | some u =>
    -- its name is in the blob, so it is not NULL
    have hname : b.dtb + strs.toNat + u.2.nameoff.toNat ≠ 0 := by
      have := b.dtb_pos
      omega
    exact congrArg Except.ok (if_pos hname)

end RvKernel.Dtb
