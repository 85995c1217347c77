/-
# The device tree blob (`dtb.c`)

The firmware hands the kernel a flattened device tree.  `dtb_match_node_name` searches it for a
node, by a recursive descent over the words of the structure block, and `dtb_node_match_property`
searches a node for a property.

A pointer is an address.  The blob is the only memory that may be read: a load from anywhere else,
from NULL in particular, is a fault.  The two loops and the recursion take a fuel, which bounds the
number of their turns.  The `trace` lines are left out.
-/
import RvKernel.Lib.Bytes
import RvKernel.Text.Str

namespace RvKernel.Dtb

open Bytes Text

/-! ## 1. The blob -/

/-- The blob in memory: its bytes, from the address `dtb` on. -/
structure Blob where
  dtb : ℕ
  bytes : List U8
  /-- `dtb` is not NULL... -/
  dtb_pos : 0 < dtb
  /-- ...and addresses do not wrap around inside the blob. -/
  fits : dtb + bytes.length < 2 ^ 64

/-- A pointer into the blob, as a pointer into an array. -/
def Blob.ptr (b : Blob) (p : ℕ) : Ptr := if p < b.dtb then [] else b.bytes.drop (p - b.dtb)

/-- `*(u32 *)p`. -/
def Blob.load32 (b : Blob) (p : ℕ) : TM U32 :=
  match b.ptr p with
  | c₀ :: c₁ :: c₂ :: c₃ :: _ => .ok (le32 c₀ c₁ c₂ c₃)
  | _ => .error .read

def beToLe (be : U32) : U32 := le32 (byte be 3) (byte be 2) (byte be 1) (byte be 0)

/-- `be_to_le(*p)`. -/
def Blob.loadBe (b : Blob) (p : ℕ) : TM U32 := do return beToLe (← b.load32 p)

/-- `DIV_ROUND_UP(num, div)`, in the type of `num`. -/
def divRoundUp {w : ℕ} (num div : BitVec w) : BitVec w := (num - 1 + div) / div

/-- `DTB_STRUCTS(dtb)`. -/
def Blob.structs (b : Blob) : TM ℕ := do return b.dtb + (← b.loadBe (b.dtb + 8)).toNat

/-! ## 2. Tokens -/

/-- `enum dtb_struct_token`. -/
inductive StructToken where
  | unknown
  | beginNode
  | endNode
  | prop
  | nop
  | fdtEnd
  deriving DecidableEq

/-- The word that stands for a token. -/
def StructToken.word : StructToken → U32
  | .unknown => 0
  | .beginNode => 1
  | .endNode => 2
  | .prop => 3
  | .nop => 4
  | .fdtEnd => 5

/-- The `switch` of `dtb_read_struct_token`. -/
def StructToken.ofWord (data : U32) : StructToken :=
  if data = StructToken.beginNode.word then .beginNode
  else if data = StructToken.endNode.word then .endNode
  else if data = StructToken.prop.word then .prop
  else if data = StructToken.nop.word then .nop
  else if data = StructToken.fdtEnd.word then .fdtEnd
  else .unknown

def dtbReadStructToken (b : Blob) (ptr : ℕ) : TM StructToken := do
  return .ofWord (← b.loadBe ptr)

/-! ## 3. Searching for a node -/

/-- `struct dtb_node`. -/
structure DtbNode where
  name : ℕ := 0
  start : ℕ := 0
  end_ : ℕ := 0
  propStart : ℕ := 0
  deriving DecidableEq

/-- `struct dtb_node_search_result`. -/
structure DtbNodeSearchResult where
  match_ : Bool := false
  node : DtbNode := {}
  ptr : ℕ := 0
  deriving DecidableEq

/-- The first loop of `dtb_match_node_name_rec`: skip properties. -/
def skipProps (b : Blob) : ℕ → ℕ → TM ℕ
  | 0, _ => .error .fuel
  | n + 1, ptr => do
    match ← dtbReadStructToken b ptr with
    | .prop => do
      let len ← b.loadBe (ptr + 4)
      let _nameoff ← b.loadBe (ptr + 8)
      skipProps b n (ptr + 12 + 4 * (divRoundUp len 4).toNat)
    | .nop => skipProps b n (ptr + 4)
    | _ => return ptr

/-- Its second loop, and what follows it: visit subnodes.  `search` is the recursive call. -/
def visitSubnodes (b : Blob) (search : ℕ → TM DtbNodeSearchResult) :
    ℕ → ℕ → DtbNodeSearchResult → TM DtbNodeSearchResult
  | 0, _, _ => .error .fuel
  | n + 1, ptr, result => do
    match ← dtbReadStructToken b ptr with
    | .nop => visitSubnodes b search n (ptr + 4) result
    | .beginNode => do
      let result ← search ptr
      if result.match_ then
        return result
      visitSubnodes b search n result.ptr result
    | .endNode => return { result with ptr := ptr + 4, match_ := false }
    | _ => return { result with ptr, match_ := false }

def dtbMatchNodeNameRec (b : Blob) (name : Ptr) : ℕ → ℕ → TM DtbNodeSearchResult
  | 0, _ => .error .fuel
  | n + 1, ptr => do
    if (← dtbReadStructToken b ptr) ≠ .beginNode then
      return { ptr }
    let len ← strlen (b.ptr (ptr + 4))
    let node : DtbNode := {
      start := ptr
      name := ptr + 4
      propStart := ptr + 4 + 4 * (divRoundUp (BitVec.ofNat 64 (len + 1)) 4).toNat }
    if (← strcmp (b.ptr node.name) name) = 0 then
      return { match_ := true, node, ptr := ptr + 4 }
    let ptr ← skipProps b n node.propStart
    visitSubnodes b (dtbMatchNodeNameRec b name n) n ptr {}

def dtbMatchNodeName (b : Blob) (name : Ptr) (fuel : ℕ) : TM DtbNode := do
  let result ← dtbMatchNodeNameRec b name fuel (← b.structs)
  return if result.match_ then result.node else {}

/-! ## 4. Searching for a property -/

/-- `DTB_STRINGS(dtb)`. -/
def Blob.strings (b : Blob) : TM ℕ := do return b.dtb + (← b.loadBe (b.dtb + 12)).toNat

/-- `struct dtb_prop`. -/
structure DtbProp where
  name : ℕ := 0
  len : U64 := 0
  value : ℕ := 0
  deriving DecidableEq

/-- The loop of `dtb_node_match_property`.  Here the length is a `size_t`. -/
def matchProps (b : Blob) (name : Ptr) : ℕ → ℕ → TM DtbProp
  | 0, _ => .error .fuel
  | n + 1, ptr => do
    match ← dtbReadStructToken b ptr with
    | .prop => do
      let len ← b.loadBe (ptr + 4)
      let nameoff ← b.loadBe (ptr + 8)
      let prop : DtbProp := {
        len := len.setWidth 64
        name := (← b.strings) + nameoff.toNat
        value := ptr + 12 }
      if (← strcmp (b.ptr prop.name) name) = 0 then
        return prop
      matchProps b name n (ptr + 12 + 4 * (divRoundUp prop.len 4).toNat)
    | .nop => matchProps b name n (ptr + 4)
    | _ => return {}

def dtbNodeMatchProperty (b : Blob) (node : DtbNode) (name : Ptr) (fuel : ℕ) : TM DtbProp :=
  matchProps b name fuel node.propStart

end RvKernel.Dtb
