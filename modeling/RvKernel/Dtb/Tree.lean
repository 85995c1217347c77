/-
# The tree and its flattening

A device tree: a node has a name, properties and subnodes.  `flatten` is its form in the structure
block, as the devicetree specification has it.  The tree also says how many `FDT_NOP`s the
flattening has before each property, each subnode and each `FDT_END_NODE`, since these may be put
in anywhere.

`Node.nodes` lists the nodes of a tree in document order, each with the address that its
`FDT_BEGIN_NODE` has in the flattening.
-/
import RvKernel.Dtb.Dtb

namespace RvKernel.Dtb

open Bytes Text

/-! ## 1. Trees -/

structure Name where
  bytes : List U8
  nul_free : ∀ c ∈ bytes, c ≠ 0

structure Property where
  /-- the `FDT_NOP`s before it -/
  nops : ℕ
  nameoff : U32
  value : List U8
  /-- the size of the structure block is a 32-bit number, so a value fits with its padding -/
  value_lt : value.length < 2 ^ 32 - 3

mutual

/-- A node, with the `FDT_NOP`s before its `FDT_END_NODE`. -/
inductive Node where
  | mk (name : Name) (props : List Property) (children : Nodes) (nops : ℕ)

/-- Subnodes, each with the `FDT_NOP`s before it. -/
inductive Nodes where
  | nil
  | cons (nops : ℕ) (node : Node) (rest : Nodes)

end

def Node.name : Node → Name
  | .mk name _ _ _ => name

/-! ## 2. Flattening -/

def StructToken.flatten (token : StructToken) : List U8 := be32 token.word

def flattenNops (n : ℕ) : List U8 := (List.replicate n StructToken.nop.flatten).flatten

def Name.flatten (name : Name) : List U8 := padWord (name.bytes ++ [0])

/-- A property, without the `FDT_NOP`s before it. -/
def Property.record (prop : Property) : List U8 :=
  StructToken.prop.flatten ++ (be32 (BitVec.ofNat 32 prop.value.length) ++
    (be32 prop.nameoff ++ padWord prop.value))

def Property.flatten (prop : Property) : List U8 := flattenNops prop.nops ++ prop.record

def flattenProps (props : List Property) : List U8 := props.flatMap Property.flatten

mutual

def Node.flatten : Node → List U8
  | .mk name props children nops =>
    StructToken.beginNode.flatten ++ (name.flatten ++ (flattenProps props ++
      (children.flatten ++ (flattenNops nops ++ StructToken.endNode.flatten))))

def Nodes.flatten : Nodes → List U8
  | .nil => []
  | .cons nops node rest => flattenNops nops ++ (node.flatten ++ rest.flatten)

end

@[simp] theorem length_flatten_token (token : StructToken) : token.flatten.length = 4 := rfl

@[simp] theorem length_flattenNops (n : ℕ) : (flattenNops n).length = 4 * n := by
  simp [flattenNops, Nat.mul_comm]

theorem Name.length_flatten (name : Name) :
    name.flatten.length = 4 * ((name.bytes.length + 4) / 4) := by
  rw [Name.flatten, length_padWord, List.length_append, List.length_singleton]

theorem Property.length_record (prop : Property) :
    prop.record.length = 12 + 4 * ((prop.value.length + 3) / 4) := by
  simp only [record, List.length_append, length_flatten_token, length_be32, length_padWord]
  omega

theorem Property.length_flatten (prop : Property) :
    prop.flatten.length = 4 * prop.nops + prop.record.length := by
  rw [flatten, List.length_append, length_flattenNops]

/-! ## 3. Document order -/

mutual

/-- The nodes of a tree in document order, with their addresses. -/
def Node.nodes : Node → ℕ → List (ℕ × Node)
  | .mk name props children nops, p =>
    (p, .mk name props children nops) ::
      children.nodes (p + 4 + name.flatten.length + (flattenProps props).length)

def Nodes.nodes : Nodes → ℕ → List (ℕ × Node)
  | .nil, _ => []
  | .cons nops node rest, p =>
    node.nodes (p + 4 * nops) ++ rest.nodes (p + 4 * nops + node.flatten.length)

end

/-- What the search should return for a node at the address `p`. -/
def Node.at_ (p : ℕ) (t : Node) : DtbNode where
  start := p
  name := p + 4
  propStart := p + 4 + t.name.flatten.length

/-- The first node of a list with a given name. -/
def firstNamed (nm : List U8) (nodes : List (ℕ × Node)) : Option (ℕ × Node) :=
  nodes.find? fun v => v.2.name.bytes = nm

theorem firstNamed_eq_none {nm : List U8} {nodes : List (ℕ × Node)} :
    firstNamed nm nodes = none ↔ ∀ v ∈ nodes, v.2.name.bytes ≠ nm := by
  simp [firstNamed]

/-! ## 4. A tree in memory -/

/-- The bytes `l` stand at the address `p`. -/
def Blob.Holds (b : Blob) (p : ℕ) (l : List U8) : Prop := l <+: b.ptr p

/-- The blob is a flattening of the tree: its structure block, at the offset that the header gives,
starts with it. -/
structure Blob.Encodes (b : Blob) (root : Node) (off : U32) : Prop where
  header : b.Holds (b.dtb + 8) (be32 off)
  structs : b.Holds (b.dtb + off.toNat) root.flatten

variable {b : Blob} {p : ℕ}

theorem Blob.ptr_add (h : b.dtb ≤ p) (n : ℕ) : b.ptr (p + n) = (b.ptr p).drop n := by
  rw [ptr, ptr, if_neg (by omega), if_neg (by omega), List.drop_drop]
  congr 1
  omega

theorem Blob.Holds.left {front back : List U8} (h : b.Holds p (front ++ back)) : b.Holds p front :=
  (List.prefix_append front back).trans h

theorem Blob.Holds.right {front back : List U8} (h : b.Holds p (front ++ back)) :
    b.Holds (p + front.length) back := by
  obtain ⟨rest, hrest⟩ := h
  by_cases hp : b.dtb ≤ p
  · refine ⟨rest, ?_⟩
    rw [ptr_add hp, ← hrest, List.append_assoc, List.drop_left]
  · -- nothing stands below the blob
    rw [ptr, if_pos (by omega)] at hrest
    have hnil : back = [] := by
      simp only [List.append_eq_nil_iff] at hrest
      exact hrest.1.2
    rw [hnil]
    exact List.nil_prefix

theorem Blob.Holds.length_lt {l : List U8} (h : b.Holds p l) : l.length < 2 ^ 64 := by
  have hle := h.length_le
  have hfits := b.fits
  rw [ptr] at hle
  split at hle
  · rw [List.length_nil] at hle
    omega
  · rw [List.length_drop] at hle
    omega

/-- A word in memory is read back. -/
theorem Blob.Holds.loadBe {w : U32} (h : b.Holds p (be32 w)) : b.loadBe p = .ok w := by
  obtain ⟨rest, hrest⟩ := h
  obtain ⟨h₀, h₁, h₂, h₃⟩ := byte_le32 (byte w 3) (byte w 2) (byte w 1) (byte w 0)
  rw [Blob.loadBe, load32, ← hrest, be32]
  simp only [List.cons_append, ok_bind, pure_eq, beToLe, h₀, h₁, h₂, h₃, le32_byte]

theorem StructToken.ofWord_word (token : StructToken) : ofWord token.word = token := by
  cases token <;> decide

theorem Blob.Holds.token {token : StructToken} (h : b.Holds p token.flatten) :
    dtbReadStructToken b p = .ok token := by
  rw [dtbReadStructToken, h.loadBe, ok_bind, StructToken.ofWord_word]
  rfl

theorem Blob.Holds.pointsTo {name : Name} (h : b.Holds p name.flatten) :
    PointsTo (b.ptr p) name.bytes := by
  obtain ⟨rest, hrest⟩ := h
  rw [Name.flatten, padWord] at hrest
  refine ⟨name.nul_free, ?_⟩
  rw [← hrest, List.append_assoc, List.append_assoc]
  exact ⟨_, rfl⟩

end RvKernel.Dtb
