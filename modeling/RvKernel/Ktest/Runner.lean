/-
# Which suites run (`ktest/kmain.c`, `ktest/startup.c`)

`mmode_startup` looks up `bootargs` in the device tree, and `kmain` of the test kernel runs the
suite that they name, or all of them.  `ktest_arg`, the array in between, is filled by `strncpy`,
which leaves the text without its NUL and clears the byte behind the array instead.  Here that does
no harm to the choice: the array is in `.bss` and filled once, so the text, which is cut to 63
bytes, is followed by a 0 that was there before (`run_kmain`).

From the tree to the suites, `suites_of_tree` says which of them run.
-/
import RvKernel.Dtb.Startup
import RvKernel.Text.Buffer

namespace RvKernel.Runner

open Bytes Text Dtb

/-! ## 1. The code -/

variable {α : Type}

/-- The loop of `kmain` over the suites, each with its `name`: those that it runs, in order. -/
def runSuites (ktestSingleTest : Bool) (ktestArg : Ptr) : List (Ptr × α) → TM (List α)
  | [] => return []
  | (name, suite) :: suites => do
    if !ktestSingleTest then
      return suite :: (← runSuites ktestSingleTest ktestArg suites)
    else if (← strcmp ktestArg name) = 0 then
      return suite :: (← runSuites ktestSingleTest ktestArg suites)
    else runSuites ktestSingleTest ktestArg suites

/-- `KTEST_ARG_MAX_SIZE`. -/
def ktestArgMaxSize : ℕ := 64

/-- `kmain`, with `ktest_arg` and what is behind it in memory: these bytes afterwards, and the
suites that were run. -/
def kmain (bootargs : Ptr) (ktestArg : Ptr) (suites : List (Ptr × α)) : TM (Ptr × List α) := do
  let stores ← parseBootargKtest bootargs ktestArgMaxSize
  let ktestArg := applyStores ktestArg stores
  let ktestSingleTest := decide ((← strlen ktestArg) > 0)
  return (ktestArg, ← runSuites ktestSingleTest ktestArg suites)

/-- What `bootargs` points to. -/
def bootargsPtr (b : Blob) : Option ℕ → Ptr
  | some value => b.ptr value
  | none => literal ""

/-- The startup of the test kernel and its `kmain`. -/
def startup (b : Blob) (fuel : ℕ) (ktestArg : Ptr) (suites : List (Ptr × α)) :
    TM (Ptr × List α) := do
  let bootargs ← mmodeStartup b fuel
  kmain (bootargsPtr b bootargs) ktestArg suites

/-! ## 2. The choice -/

/-- The argument: what is behind `ktest_run=`, where the boot arguments begin with that. -/
def argument (args : List U8) : Option (List U8) :=
  if ascii "ktest_run=" <+: args then some (args.drop 10) else none

/-- **A suite is to be run** if the argument is its name, up to 63 bytes, or if there is none. -/
def Chosen (args name : List U8) : Prop :=
  ∀ arg, argument args = some arg → arg = [] ∨ arg.take 63 = name

instance (args name : List U8) : Decidable (Chosen args name) :=
  match h : argument args with
  | none => isTrue fun arg harg => (Option.some_ne_none arg (harg.symm.trans h)).elim
  | some arg =>
    decidable_of_iff (arg = [] ∨ arg.take 63 = name)
      ⟨fun hor _ harg => Option.some.inj (h.symm.trans harg) ▸ hor, fun hall => hall arg h⟩

/-- The string in an array. -/
def text (p : Ptr) : List U8 := p.takeWhile (· ≠ 0)

/-- The suites that are to be run. -/
def chosen (args : List U8) (suites : List (Ptr × α)) : List α :=
  (suites.filter fun t => Chosen args (text t.1)).map Prod.snd

/-- What the array and the bytes behind it are in the end. -/
def argBytes (args : List U8) (behind : Ptr) : Ptr :=
  match argument args with
  | some arg => arg.take 63 ++ (List.replicate (64 - (arg.take 63).length) 0 ++ behind.set 0 0)
  | none => List.replicate 64 0 ++ behind

theorem chosen_of_forall {args : List U8} (h : ∀ name, Chosen args name)
    (suites : List (Ptr × α)) : chosen args suites = suites.map Prod.snd := by
  rw [chosen, List.filter_eq_self.mpr fun t _ => decide_eq_true (h _)]

theorem chosen_of_argument {args arg : List U8} (h : argument args = some arg) (hne : arg ≠ [])
    (suites : List (Ptr × α)) :
    chosen args suites = (suites.filter fun t => arg.take 63 = text t.1).map Prod.snd := by
  have hiff : ∀ name, Chosen args name ↔ arg.take 63 = name := by
    intro name
    rw [Chosen, h]
    simp [hne]
  simp only [chosen, hiff]

theorem pointsTo_text {p : Ptr} (h : (0 : U8) ∈ p) : PointsTo p (text p) := by
  rw [← List.append_nil p]
  have hpoints := pointsTo_of_mem h []
  rwa [List.append_nil] at hpoints ⊢

/-! ## 3. The loop over the suites -/

section Loop

variable {suites : List (Ptr × α)}

/-- Without an argument, all suites run. -/
theorem runSuites_all (ktestArg : Ptr) :
    runSuites false ktestArg suites = .ok (suites.map Prod.snd) := by
  induction suites with
  | nil => rfl
  | cons t suites ih =>
    rw [runSuites, ih]
    rfl

/-- With one, those of that name. -/
theorem runSuites_named (hnames : ∀ t ∈ suites, (0 : U8) ∈ t.1) {ktestArg : Ptr} {s : List U8}
    (harg : PointsTo ktestArg s) : runSuites true ktestArg suites
      = .ok ((suites.filter fun t => s = text t.1).map Prod.snd) := by
  induction suites with
  | nil => rfl
  | cons t suites ih =>
    obtain ⟨h0, hnames⟩ := List.forall_mem_cons.mp hnames
    obtain ⟨d, hd, hiff⟩ := run_strcmp harg (pointsTo_text h0)
    simp only [runSuites, hd, ok_bind, ih hnames, hiff]
    by_cases heq : s = text t.1
    · rw [if_pos heq, List.filter_cons_of_pos (by simpa using heq)]
      rfl
    · rw [if_neg heq, List.filter_cons_of_neg (by simpa using heq)]
      rfl

end Loop

/-! ## 4. The array -/

/-- The text, and a 0 that was there before. -/
theorem applyStores_bss {t : List U8} (ht : t.length ≤ 63) (behind : Ptr) :
    applyStores (List.replicate 64 0 ++ behind) (storesAt 0 t ++ [⟨64, 0⟩])
      = t ++ (List.replicate (64 - t.length) 0 ++ behind.set 0 0) := by
  have hcopy : applyStores (List.replicate 64 0 ++ behind) (storesAt 0 t)
      = t ++ (List.replicate (64 - t.length) 0 ++ behind) := by
    have hlen : t.length ≤ (List.replicate 64 (0 : U8) ++ behind).length := by
      rw [List.length_append, List.length_replicate]
      omega
    have hstores := applyStores_storesAt [] (List.replicate 64 0 ++ behind) t hlen
    rw [List.nil_append, List.nil_append, overwrite,
      List.drop_append_of_le_length (by rw [List.length_replicate]; omega),
      List.drop_replicate] at hstores
    exact hstores
  have hbehind : (t ++ (List.replicate (64 - t.length) 0 ++ behind)).set 64 0
      = t ++ (List.replicate (64 - t.length) 0 ++ behind.set 0 0) := by
    rw [List.set_append_right _ _ (by omega),
      List.set_append_right _ _ (by rw [List.length_replicate]), List.length_replicate,
      Nat.sub_self]
  rw [applyStores_append, hcopy]
  exact hbehind

/-- Cut to 63 bytes, the text in the array ends in it. -/
theorem pointsTo_bss {t : List U8} (hnul : ∀ c ∈ t, c ≠ 0) (ht : t.length ≤ 63) (behind : Ptr) :
    PointsTo (t ++ (List.replicate (64 - t.length) 0 ++ behind)) t := by
  obtain ⟨n, hn⟩ : ∃ n, 64 - t.length = n + 1 := ⟨63 - t.length, by omega⟩
  rw [hn, List.replicate_succ]
  have hpoints := pointsTo_append_nul hnul (List.replicate n 0 ++ behind)
  rwa [List.cons_append]

theorem parseBootargKtest_other {p : Ptr} {args : List U8} (h : PointsTo p args)
    (hno : ¬ ascii "ktest_run=" <+: args) (size : ℕ) :
    parseBootargKtest p size = .ok [⟨0, 0⟩] := by
  have hlen : strlen (literal "ktest_run=") = .ok 10 := run_strlen (pointsTo_literal rfl)
  obtain ⟨d, hd, hiff⟩ := strncmp_literal (w := "ktest_run=") (n := 9) h rfl rfl
  have hne : d ≠ 0 := mt hiff.mp hno
  simp only [parseBootargKtest, hlen, ok_bind, hd, ne_eq, hne, not_false_eq_true, if_true, pure_eq]

theorem argument_of_prefix (s : List U8) : argument (ascii "ktest_run=" ++ s) = some s :=
  if_pos (List.prefix_append _ _)

/-- **`kmain` runs the chosen suites**, for every string of boot arguments. -/
theorem run_kmain {bootargs : Ptr} {args : List U8} (h : PointsTo bootargs args) (behind : Ptr)
    {suites : List (Ptr × α)} (hnames : ∀ t ∈ suites, (0 : U8) ∈ t.1) :
    kmain bootargs (List.replicate 64 0 ++ behind) suites
      = .ok (argBytes args behind, chosen args suites) := by
  by_cases hpre : ascii "ktest_run=" <+: args
  · obtain ⟨arg, rfl⟩ := hpre
    have harg := argument_of_prefix arg
    have hnul : ∀ c ∈ arg.take 63, c ≠ 0 := fun c hc =>
      h.nul_free c (List.mem_append_right _ (List.mem_of_mem_take hc))
    have hcut : (arg.take 63).length ≤ 63 := List.length_take_le 63 arg
    have hpoints := pointsTo_bss hnul hcut (behind.set 0 0)
    have hparse : parseBootargKtest bootargs ktestArgMaxSize
        = .ok (storesAt 0 (arg.take 63) ++ [⟨64, 0⟩]) := run_parseBootargKtest h (by decide)
    rw [kmain, hparse, ok_bind]
    simp only [applyStores_bss hcut, run_strlen hpoints, ok_bind]
    by_cases hnil : arg = []
    · subst hnil
      have hall : ∀ name, Chosen (ascii "ktest_run=" ++ []) name :=
        fun _ arg' harg' => Or.inl (Option.some.inj (harg'.symm.trans harg))
      rw [chosen_of_forall hall]
      exact congrArg (· >>= fun l => pure (_, l)) (runSuites_all _)
    · have hpos : (arg.take 63).length > 0 := by
        rw [gt_iff_lt, List.length_pos_iff, ne_eq, List.take_eq_nil_iff]
        simp [hnil]
      rw [decide_eq_true hpos, runSuites_named hnames hpoints, chosen_of_argument harg hnil]
      simp only [ok_bind, pure_eq, argBytes, harg]
  · have hnone : argument args = none := if_neg hpre
    have hall : ∀ name, Chosen args name :=
      fun _ arg harg => (Option.some_ne_none arg (harg.symm.trans hnone)).elim
    have hpoints := pointsTo_bss nul_free_nil (Nat.zero_le 63) behind
    have hbss : applyStores (List.replicate 64 0 ++ behind) [⟨0, 0⟩]
        = List.replicate 64 0 ++ behind := rfl
    rw [kmain, parseBootargKtest_other h hpre, ok_bind, chosen_of_forall hall]
    simp only [hbss]
    rw [show strlen (List.replicate 64 0 ++ behind) = .ok 0 from run_strlen hpoints]
    simp only [ok_bind, gt_iff_lt, lt_irrefl, decide_false, runSuites_all, pure_eq, argBytes, hnone]

/-! ## 5. From the tree to the suites -/

section Startup

variable {b : Blob} {root : Node} {strings : List U8} {off strs : U32}

/-- The boot arguments of a node: the text of its first property of that name. -/
def bootargsOf (strings : List U8) (v : ℕ × Node) : List U8 :=
  match firstProp strings (ascii "bootargs") (propsAt v.2.props (v.2.at_ v.1).propStart) with
  | some u => text u.2.value
  | none => []

theorem pointsTo_value {p : ℕ} {value : List U8} (h : b.Holds p value) (h0 : (0 : U8) ∈ value) :
    PointsTo (b.ptr p) (text value) := by
  obtain ⟨rest, hrest⟩ := h
  rw [← hrest]
  exact pointsTo_of_mem h0 rest

/-- **The suites that run are those that the device tree names**: in the blob of every well-formed
tree with a node `chosen`, the argument is found, copied and compared, and no byte is read that
belongs to no string. -/
theorem suites_of_tree (hb : b.WellFormed root strings off strs) {fuel : ℕ}
    (hfuel : root.flatten.length ≤ fuel) {v : ℕ × Node}
    (hv : firstNamed (ascii "chosen") (root.nodes (b.dtb + off.toNat)) = some v)
    (hvalues : ∀ prop ∈ v.2.props, nameAt strings prop.nameoff = ascii "bootargs" →
      (0 : U8) ∈ prop.value) (behind : Ptr) {suites : List (Ptr × α)}
    (hnames : ∀ t ∈ suites, (0 : U8) ∈ t.1) :
    startup b fuel (List.replicate 64 0 ++ behind) suites
      = .ok (argBytes (bootargsOf strings v) behind, chosen (bootargsOf strings v) suites) := by
  have hholds := (run_dtbNodeMatchProperty hb (List.mem_of_find?_eq_some hv)
    (pointsTo_literal (w := "bootargs") rfl) hfuel).2
  rw [startup, mmodeStartup_bootargs hb hfuel hv, ok_bind]
  refine run_kmain ?_ behind hnames
  unfold bootargsOf
  cases hfirst : firstProp strings (ascii "bootargs")
      (propsAt v.2.props (v.2.at_ v.1).propStart) with
  | none => exact pointsTo_literal rfl
  | some u =>
    have hname : nameAt strings u.2.nameoff = ascii "bootargs" := by
      simpa using List.find?_some hfirst
    obtain ⟨hmem, hvalue⟩ := Property.holds_value hholds (List.mem_of_find?_eq_some hfirst)
    exact pointsTo_value hvalue (hvalues u.2 hmem hname)

end Startup

theorem nul_free_chosen : ∀ c ∈ ascii "chosen", c ≠ 0 := List.all_iff_forall_prop.mp rfl

/-- A node with the boot arguments `ktest_run=vm_map_tests`, and a tree with that node. -/
def chosenNode : Node :=
  .mk ⟨ascii "chosen", nul_free_chosen⟩
    [⟨0, 0, literal "ktest_run=vm_map_tests", by decide⟩] .nil 0

def ktestTree : Node := .mk ⟨[], nul_free_nil⟩ [] (.cons 0 chosenNode .nil) 0

def ktestBlob : Blob where
  dtb := 0x82200000
  bytes := List.replicate 8 0 ++
    (be32 16 ++ (be32 80 ++ (ktestTree.flatten ++ literal "bootargs")))
  dtb_pos := sampleBlob.dtb_pos
  fits := by decide +kernel

theorem ktestBlob_wellFormed : ktestBlob.WellFormed ktestTree (literal "bootargs") 16 80 where
  header := ⟨_, rfl⟩
  structs := ⟨_, rfl⟩
  strings_header := ⟨_, rfl⟩
  strings_block := ⟨_, rfl⟩
  named := by decide

/-- The suites of the source, by number. -/
def sampleSuites : List (Ptr × ℕ) :=
  [(literal "page_unit_tests", 0), (literal "virt_addr_unit_tests", 1),
    (literal "ppn_unit_tests", 2), (literal "pte_unit_tests", 3), (literal "alloc_tests", 4),
    (literal "vm_map_tests", 5)]

/-- The last suite runs, alone, and the byte behind the array is cleared. -/
theorem suites_of_tree_vm_map :
    startup ktestBlob 200 (List.replicate 64 0 ++ [7]) sampleSuites
      = .ok (ascii "vm_map_tests" ++ (List.replicate 52 0 ++ [0]), [5]) := by
  have hv : firstNamed (ascii "chosen") (ktestTree.nodes (ktestBlob.dtb + (16 : U32).toNat))
      = some (0x82200018, chosenNode) := rfl
  have hvalues : ∀ prop ∈ chosenNode.props,
      nameAt (literal "bootargs") prop.nameoff = ascii "bootargs" → (0 : U8) ∈ prop.value := by
    decide
  exact suites_of_tree ktestBlob_wellFormed (by decide) hv hvalues [7] (by decide)

end RvKernel.Runner
