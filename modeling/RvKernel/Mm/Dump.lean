/-
# `dump_ptbs`

The debugging aid that walks all page tables with an explicit stack and counts them.  It knows no
levels: every valid entry with `R`, `W` and `X` clear leads, for it, to one more table.  But the
null page is mapped by just such an entry, with page number 0, as the last act of `vm_init_kernel`.
So every dump pops a null pointer that is not a table, and while the scan of its entries is
skipped, it has been counted already (`dump_ptbs_not_tables`).

The entries that map the null page stay where they are, whatever is mapped later: a call changes
no valid entry (`Held`), wherever its walk ends up.
-/
import RvKernel.Lib.Worklist
import RvKernel.Mm.Frame

namespace RvKernel.Mm

open Sv39 Effect Worklist

/-! ## 1. The code -/

/-- The number of slots of `allocated_ptbs`. -/
def dumpSlots : ℕ := 512

/-- `PTB_ENTRY_COUNT`. -/
def ptbEntryCount : ℕ := 512

/-- Why a dump does not end as it should. -/
inductive DumpStop where
  /-- a store behind the last slot of `allocated_ptbs` -/
  | slots
  | fuel
  deriving DecidableEq

/-- The locals of `dump_ptbs`: the slots of `allocated_ptbs` below `top`, last one first, and
`total_ptbs`.  The last field records what was popped, first to last; the code does not. -/
structure Dump where
  allocatedPtbs : List U64
  totalPtbs : ℕ
  popped : List U64

abbrev DumpM := EStateM DumpStop Dump

/-- `allocated_ptbs[top++] = ptb`. -/
def pushPtb (ptb : U64) : DumpM Unit := do
  if (← get).allocatedPtbs.length < dumpSlots then
    modify fun d => { d with allocatedPtbs := ptb :: d.allocatedPtbs }
  else
    throw .slots

/-- The body of the `for` loop. -/
def dumpEntry (m : Mem) (ptbp : U64) (i : ℕ) : DumpM Unit :=
  if ptbp = 0 then return ()
  else
    let pte := m (ptbGetPtep ptbp (BitVec.ofNat 64 i))
    if !pteValid pte then return ()
    else if pteLeaf pte then return ()
    else pushPtb (pteNextPtb pte)

/-- The `for` loop, over the indices that are left. -/
def dumpEntries (m : Mem) (ptbp : U64) : List ℕ → DumpM Unit
  | [] => return ()
  | i :: is => do
    dumpEntry m ptbp i
    dumpEntries m ptbp is

/-- The `while` loop. -/
def dumpLoop (m : Mem) : ℕ → DumpM Unit
  | 0 => throw .fuel
  | fuel + 1 => do
    match (← get).allocatedPtbs with
    | [] => return ()
    | ptbp :: rest =>
      modify fun d => ⟨rest, d.totalPtbs + 1, d.popped ++ [ptbp]⟩
      dumpEntries m ptbp (List.range ptbEntryCount)
      dumpLoop m fuel

/-- `dump_ptbs()`, with the tables dereferenced at their physical address. -/
def dumpPtbs (fuel : ℕ) (s : Kernel) : EStateM.Result DumpStop Dump Unit :=
  (do pushPtb s.kernelRootPtb; dumpLoop s.mem fuel : DumpM Unit) ⟨[], 0, []⟩

/-! ## 2. What a dump pops -/

/-- The pointer that entry `i` of `t` makes the dump push. -/
def pushedBy (m : Mem) (t : U64) (i : ℕ) : Option U64 :=
  if t ≠ 0 ∧ isPointer (m (slot t i)) = true then some (ppnAddr (m (slot t i))) else none

/-- The pointers that the entries of `t` make it push. -/
def pushedBelow (m : Mem) (t : U64) : List U64 :=
  (List.range ptbEntryCount).filterMap (pushedBy m t)

theorem mem_pushedBelow {m : Mem} {t u : U64} :
    u ∈ pushedBelow m t ↔
      t ≠ 0 ∧ ∃ i < 512, isPointer (m (slot t i)) = true ∧ ppnAddr (m (slot t i)) = u := by
  rw [pushedBelow, List.mem_filterMap]
  constructor
  · rintro ⟨i, hi, hu⟩
    rw [pushedBy, Option.ite_none_right_eq_some] at hu
    obtain ⟨⟨ht, hptr⟩, hu⟩ := hu
    exact ⟨ht, i, List.mem_range.mp hi, hptr, Option.some.inj hu⟩
  · rintro ⟨ht, i, hi, hptr, rfl⟩
    exact ⟨i, List.mem_range.mpr hi, if_pos ⟨ht, hptr⟩⟩

theorem pushPtb_ok {ptb : U64} {d d' : Dump} (h : pushPtb ptb d = .ok () d') :
    d' = { d with allocatedPtbs := ptb :: d.allocatedPtbs } := by
  rw [pushPtb, run_bind, run_get] at h
  simp only [run_ite] at h
  split at h
  · cases h
    rfl
  · cases h

theorem pushedBy_of_not {m : Mem} {t : U64} {i : ℕ}
    (h : t = 0 ∨ isPointer (m (slot t i)) = false) : pushedBy m t i = none := by
  refine if_neg ?_
  rintro ⟨ht, hptr⟩
  rcases h with h | h
  · exact ht h
  · rw [h] at hptr
    cases hptr

theorem dumpEntry_ok {m : Mem} {t : U64} {i : ℕ} {d d' : Dump} (h : dumpEntry m t i d = .ok () d') :
    d' = { d with allocatedPtbs := (pushedBy m t i).toList ++ d.allocatedPtbs } := by
  simp only [dumpEntry, ptbGetPtep_eq, pteNextPtb_eq, run_ite] at h
  by_cases ht : t = 0
  · rw [if_pos ht] at h
    cases h
    rw [pushedBy_of_not (Or.inl ht)]
    rfl
  · rw [if_neg ht] at h
    have hptr := isPointer_eq (m (slot t i))
    cases hv : pteValid (m (slot t i)) with
    | false =>
      rw [hv] at h hptr
      cases h
      rw [pushedBy_of_not (Or.inr hptr)]
      rfl
    | true =>
      cases hl : pteLeaf (m (slot t i)) with
      | true =>
        rw [hv, hl] at h hptr
        cases h
        rw [pushedBy_of_not (Or.inr hptr)]
        rfl
      | false =>
        rw [hv, hl] at h hptr
        rw [pushedBy, if_pos ⟨ht, hptr⟩]
        exact pushPtb_ok h

theorem dumpEntries_ok {m : Mem} {t : U64} {is : List ℕ} {d d' : Dump}
    (h : dumpEntries m t is d = .ok () d') :
    d' = { d with allocatedPtbs := (is.filterMap (pushedBy m t)).reverse ++ d.allocatedPtbs } := by
  induction is generalizing d with
  | nil =>
    cases h
    rfl
  | cons i is ih =>
    obtain ⟨_, d₁, hi, hrest⟩ := bind_eq_ok.mp h
    rw [ih hrest, dumpEntry_ok hi, List.filterMap_cons]
    cases pushedBy m t i with
    | none => rfl
    | some u => simp

/-- **A dump that ends** has emptied the stack, and counted every pointer it popped. -/
theorem dumpLoop_ok {m : Mem} {fuel : ℕ} {d d' : Dump} (h : dumpLoop m fuel d = .ok () d') :
    ∃ out, Sweep (pushedBelow m) d.allocatedPtbs out ∧ d'.popped = d.popped ++ out ∧
      d'.totalPtbs = d.totalPtbs + out.length := by
  induction fuel generalizing d with
  | zero => cases h
  | succ fuel ih =>
    rw [dumpLoop, run_bind, run_get] at h
    cases hst : d.allocatedPtbs with
    | nil =>
      simp only [hst] at h
      cases h
      exact ⟨[], Sweep.done, (List.append_nil _).symm, rfl⟩
    | cons ptbp rest =>
      simp only [hst] at h
      rw [run_bind, run_modify] at h
      obtain ⟨_, d₁, hfor, hloop⟩ := bind_eq_ok.mp h
      obtain ⟨out, hsweep, hpop, htot⟩ := ih hloop
      rw [dumpEntries_ok hfor] at hsweep hpop htot
      refine ⟨ptbp :: out, Sweep.pop (List.reverse_perm _) hsweep, ?_, ?_⟩
      · rw [hpop, List.append_assoc]
        rfl
      · rw [htot, List.length_cons]
        exact (Nat.add_right_comm _ _ _).trans (Nat.add_assoc _ _ _)

theorem dumpPtbs_ok {fuel : ℕ} {s : Kernel} {d : Dump} (h : dumpPtbs fuel s = .ok () d) :
    Sweep (pushedBelow s.mem) [s.kernelRootPtb] d.popped ∧ d.totalPtbs = d.popped.length := by
  obtain ⟨_, d₁, hpush, hloop⟩ := bind_eq_ok.mp h
  obtain ⟨out, hsweep, hpop, htot⟩ := dumpLoop_ok hloop
  rw [pushPtb_ok hpush] at hsweep hpop htot
  rw [List.nil_append] at hpop
  rw [Nat.zero_add] at htot
  rw [hpop, htot]
  exact ⟨hsweep, rfl⟩

/-! ## 3. The property -/

/-- A page table: the root, or a page that a non-leaf entry of a table above level 0 names. -/
def Kernel.IsTable (s : Kernel) (t : U64) : Prop := ∃ p, s.table noSlots p = some t

/-- The pointers whose entries the dump has scanned: it skips the null page. -/
def Dump.scanned (d : Dump) : List U64 := d.popped.filter (· ≠ 0)

/-- **What a dump should do**: end, within its slots, having visited every page table once and
nothing else, and having counted the page tables.  What counts as a visit is a parameter. -/
def DumpsTables (visited : Dump → List U64) (s : Kernel) : Prop :=
  ∃ fuel d, dumpPtbs fuel s = .ok () d ∧ (visited d).Nodup ∧
    (∀ t, t ∈ visited d ↔ s.IsTable t) ∧ d.totalPtbs = {t | s.IsTable t}.ncard

theorem isTable_child {s : Kernel} {i : ℕ} {q : List ℕ} {c : U64}
    (h : s.table noSlots (i :: q) = some c) :
    ∃ t, s.table noSlots q = some t ∧ q.length < 2 ∧ (t ≠ 0 → c ∈ pushedBelow s.mem t) := by
  obtain ⟨t, ht, hq, hi, -, hptr, hc⟩ := tableAt_cons.mp h
  exact ⟨t, ht, hq, fun h0 => mem_pushedBelow.mpr ⟨h0, i, hi, hptr, hc⟩⟩

/-- The first entry of `t` is a non-leaf entry that names `u`. -/
def FirstNames (m : Mem) (t u : U64) : Prop :=
  isPointer (m (slot t 0)) = true ∧ ppnAddr (m (slot t 0)) = u

theorem FirstNames.mem_pushedBelow {m : Mem} {t u : U64} (h : FirstNames m t u) (ht : t ≠ 0) :
    u ∈ pushedBelow m t :=
  Mm.mem_pushedBelow.mpr ⟨ht, 0, by norm_num, h⟩

/-- The tables on the way to the null page, and its entry: a non-leaf one that names page 0. -/
structure NullPath (s : Kernel) (a b : U64) : Prop where
  root : FirstNames s.mem s.kernelRootPtb a
  upper : FirstNames s.mem a b
  lower : FirstNames s.mem b 0
  root_ne : s.kernelRootPtb ≠ 0
  upper_ne : a ≠ 0
  lower_ne : b ≠ 0
  root_ne_upper : s.kernelRootPtb ≠ a
  root_ne_lower : s.kernelRootPtb ≠ b

section NullPath

variable {s : Kernel} {a b : U64} (h : NullPath s a b) {out : List U64}
  (hsweep : Sweep (pushedBelow s.mem) [s.kernelRootPtb] out)

include h hsweep in
/-- The dump pops the tables on the way to the null page, and then the null pointer. -/
theorem NullPath.mem_out : a ∈ out ∧ b ∈ out ∧ 0 ∈ out := by
  have hroot := hsweep.mem_of_stack List.mem_cons_self
  have ha := hsweep.mem_of_next hroot (h.root.mem_pushedBelow h.root_ne)
  have hb := hsweep.mem_of_next ha (h.upper.mem_pushedBelow h.upper_ne)
  exact ⟨ha, hb, hsweep.mem_of_next hb (h.lower.mem_pushedBelow h.lower_ne)⟩

include h hsweep in
/-- If it pops nothing twice and nothing but tables, the null page is not a table. -/
theorem NullPath.not_isTable (hn : out.Nodup) (htab : ∀ t, s.IsTable t → t ∈ out) :
    ¬ s.IsTable 0 := by
  have hroot := hsweep.mem_of_stack List.mem_cons_self
  obtain ⟨ha, hb, -⟩ := h.mem_out hsweep
  -- the root does not name page 0: the level-0 table already does
  have hdirect : ∀ i, s.table noSlots [i] ≠ some 0 := by
    intro i hi
    obtain ⟨t, ht, -, hmem⟩ := isTable_child hi
    obtain rfl : s.kernelRootPtb = t := Option.some.inj ht
    exact h.root_ne_lower (hsweep.parent_unique hn hroot hb (hmem h.root_ne)
      (h.lower.mem_pushedBelow h.lower_ne))
  rintro ⟨p, hp⟩
  cases p with
  | nil => exact h.root_ne (Option.some.inj hp)
  | cons i q =>
    obtain ⟨t, ht, hq, hmem⟩ := isTable_child hp
    cases q with
    | nil => exact hdirect i hp
    | cons j r =>
      obtain rfl : r = [] := by
        rw [List.length_cons] at hq
        exact List.length_eq_zero_iff.mp (by omega)
      have ht0 : t ≠ 0 := by
        rintro rfl
        exact hdirect j ht
      -- a second entry for page 0 has to be in the same table, which is at level 0
      obtain rfl : t = b := hsweep.parent_unique hn (htab t ⟨_, ht⟩) hb (hmem ht0)
        (h.lower.mem_pushedBelow h.lower_ne)
      obtain ⟨u, hu, -, hmem'⟩ := isTable_child ht
      obtain rfl : s.kernelRootPtb = u := Option.some.inj hu
      exact h.root_ne_upper (hsweep.parent_unique hn hroot ha (hmem' h.root_ne)
        (h.upper.mem_pushedBelow h.upper_ne))

include h in
/-- **Where the null page is mapped, no dump is right**: the null pointer is one visit too many, or,
when it is not taken for a visit, it has been counted all the same. -/
theorem NullPath.not_dumpsTables : ¬ DumpsTables Dump.popped s ∧ ¬ DumpsTables Dump.scanned s := by
  constructor
  · rintro ⟨fuel, d, hrun, hn, htab, -⟩
    obtain ⟨hsweep, -⟩ := dumpPtbs_ok hrun
    exact h.not_isTable hsweep hn (fun t ht => (htab t).mpr ht)
      ((htab 0).mp (h.mem_out hsweep).2.2)
  · rintro ⟨fuel, d, hrun, hn, htab, htot⟩
    obtain ⟨hsweep, hcount⟩ := dumpPtbs_ok hrun
    have hset : {t | s.IsTable t} = (d.scanned.toFinset : Set U64) := by
      ext t
      rw [List.coe_toFinset, Set.mem_ofPred_eq, Set.mem_ofPred_eq, htab]
    have hlt : d.scanned.length < d.popped.length :=
      List.length_filter_lt_length_iff_exists.mpr ⟨0, (h.mem_out hsweep).2.2, by simp⟩
    rw [hcount, hset, Set.ncard_coe_finset, List.toFinset_card_of_nodup hn] at htot
    omega

end NullPath

/-! ## 4. The null page stays mapped -/

/-- The entries `X` hold what they held in `m`, and will go on to: they are valid, and in no page
that the allocator can still answer, page 0 of its failures included. -/
structure Held (X : List U64) (m : Mem) (root : U64) (s : Kernel) : Prop where
  root : s.kernelRootPtb = root
  initialized : s.alloc.initialized = true
  next_le : s.alloc.next ≤ allocListSize - 1
  word : ∀ x ∈ X, s.mem x = m x
  valid : ∀ x ∈ X, (m x).getLsbD 0 = true
  free : ∀ x ∈ X, ∀ n, s.alloc.next ≤ n → n < allocListSize → ∀ j < 512, x ≠ slot (s.alloc.list n) j
  null : ∀ x ∈ X, ∀ j < 512, x ≠ slot 0 j

section Held

variable {X : List U64} {m : Mem} {root : U64} {s s' : Kernel}

theorem Held.congr (h : Held X m root s) (hr : s'.kernelRootPtb = s.kernelRootPtb)
    (ha : s'.alloc = s.alloc) (hw : ∀ x ∈ X, s'.mem x = s.mem x) : Held X m root s' where
  root := hr.trans h.root
  initialized := ha ▸ h.initialized
  next_le := ha ▸ h.next_le
  word x hx := (hw x hx).trans (h.word x hx)
  valid := h.valid
  free := ha ▸ h.free
  null := h.null

/-- An entry that is invalid is not one of them, and can be written. -/
theorem Held.write (h : Held X m root s) {ptep : U64} (hne : ∀ x ∈ X, x ≠ ptep) (v : U64) :
    Held X m root (s.write ptep v) :=
  h.congr rfl rfl fun x hx => Function.update_of_ne (hne x hx) _ _

theorem Held.ne_of_invalid (h : Held X m root s) {ptep : U64}
    (hv : (s.mem ptep).getLsbD 0 = false) : ∀ x ∈ X, x ≠ ptep := by
  rintro x hx rfl
  rw [h.word x hx, h.valid x hx] at hv
  cases hv

theorem Held.refusal (h : Held X m root s) {msg : Msg} {r : Int}
    (hrun : refusal msg s = .ok r s') : Held X m root s' := by
  obtain ⟨es, -, hfin⟩ := refusal_eq msg s
  rw [hrun] at hfin
  obtain rfl : s' = { s with events := s.events ++ es } := hfin
  exact h.congr rfl rfl fun _ _ => rfl

/-- The page that `alloc_get_page` answers holds none of them. -/
theorem Held.allocGetPage (h : Held X m root s) {c : U64} (hrun : allocGetPage s = .ok c s') :
    Held X m root s' ∧ ∀ x ∈ X, ∀ j < 512, x ≠ slot c j := by
  obtain ⟨hn, rfl, rfl⟩ | ⟨-, rfl, rfl⟩ := allocGetPage_cases h.initialized hrun
  · have hle := h.next_le
    have hlt : s.alloc.next < allocListSize - 1 := by omega
    have hkeep : ∀ n, s.alloc.next + 1 ≤ n → s.alloc.pop.list n = s.alloc.list n := fun n hn' =>
      Function.update_of_ne (by omega) _ _
    refine ⟨⟨h.root, h.initialized, hlt, h.word, h.valid, ?_, h.null⟩, fun x hx => ?_⟩
    · intro x hx n hn' hlt' j hj
      change x ≠ slot (s.alloc.pop.list n) j
      rw [hkeep n hn']
      exact h.free x hx n (Nat.le_of_succ_le hn') hlt' j hj
    · exact h.free x hx _ (Nat.le_refl _) (by omega)
  · exact ⟨h.congr rfl rfl fun _ _ => rfl, h.null⟩

theorem Held.allocZeroPage (h : Held X m root s) {c : U64}
    (hrun : allocZeroPage physical s = .ok c s') : Held X m root s' := by
  obtain ⟨p, s₁, hget, hrest⟩ := bind_eq_ok.mp hrun
  obtain ⟨h₁, hout⟩ := h.allocGetPage hget
  obtain ⟨mem', es, hset, -, hframe, -⟩ := run_memset_physical 512 p s₁
  obtain ⟨_, s₂, hset', hrest⟩ := bind_eq_ok.mp hrest
  rw [hset] at hset'
  cases hset'
  cases hrest
  exact h₁.congr rfl rfl fun x hx => hframe x (hout x hx)

/-- **One step of the walk**, to whatever table its entry leads. -/
theorem Held.descend (h : Held X m root s) {ptep c : U64}
    (hrun : descend physical ptep s = .ok c s') : Held X m root s' := by
  cases hv : (s.mem ptep).getLsbD 0 with
  | true =>
    rw [run_descend_follow hv] at hrun
    cases hrun
    exact h
  | false =>
    have hne := h.ne_of_invalid hv
    simp only [Mm.descend, run_bind, run_load_physical, pteValid_eq, hv, Bool.not_false,
      if_true] at hrun
    cases hz : Mm.allocZeroPage physical s with
    | error e s₁ =>
      rw [hz] at hrun
      cases hrun
    | ok p s₁ =>
      rw [hz] at hrun
      cases hrun
      exact (h.allocZeroPage hz).write hne _

theorem Held.mapLeaf (h : Held X m root s) {va pa flags ptep : U64} {r : Int}
    (hrun : mapLeaf physical va pa flags ptep s = .ok r s') : Held X m root s' := by
  cases hv : (s.mem ptep).getLsbD 0 with
  | true =>
    rw [run_mapLeaf_valid hv] at hrun
    exact h.refusal hrun
  | false =>
    rw [run_mapLeaf_new hv] at hrun
    cases hrun
    exact h.write (h.ne_of_invalid hv) _

/-- The index of a level is computed from the address alone. -/
theorem vaGetIndex_state {va i : U64} {level : ℕ} (hrun : vaGetIndex va level s = .ok i s') :
    s' = s := by
  unfold vaGetIndex at hrun
  split at hrun
  · cases hrun; rfl
  · cases hrun; rfl
  · cases hrun; rfl
  · cases hrun

theorem Held.vmMapLoop {va pa flags : U64} {r : Int} {level : ℕ} {ptb : U64}
    (h : Held X m root s) (hrun : vmMapLoop physical va pa flags level ptb s = .ok r s') :
    Held X m root s' := by
  induction level generalizing ptb s with
  | zero =>
    obtain ⟨i, s₁, hi, hleaf⟩ := bind_eq_ok.mp hrun
    obtain rfl := vaGetIndex_state hi
    exact h.mapLeaf hleaf
  | succ level ih =>
    obtain ⟨i, s₁, hi, hrest⟩ := bind_eq_ok.mp hrun
    obtain rfl := vaGetIndex_state hi
    obtain ⟨next, s₂, hdesc, hloop⟩ := bind_eq_ok.mp hrest
    exact ih (h.descend hdesc) hloop

/-- **A call of `vm_map_page` that returns** changes no valid entry, whatever its arguments are and
wherever its walk leads. -/
theorem Held.vmMapPage (h : Held X m root s) {va pa flags : U64} {r : Int}
    (hrun : vmMapPage physical va pa flags s = .ok r s') : Held X m root s' := by
  by_cases hok : Acceptable va pa
  · rw [vmMapPage_of_acceptable hok] at hrun
    exact h.vmMapLoop hrun
  · obtain ⟨msg, -, hrefuse⟩ := vmMapPage_of_not_acceptable hok physical flags s
    rw [hrefuse] at hrun
    exact h.refusal hrun

end Held

/-! ## 5. Every reachable state -/

/-- The root slots that `vm_init_kernel` never walks through: all but those of the low addresses
and of the image. -/
def unwalkedSlots (i : ℕ) : Bool := decide (i ≠ 0 ∧ i ≠ 510)

theorem unwalkedSlots_bootSlots : BootSlots unwalkedSlots where
  direct i hi := by
    rw [directSlots, decide_eq_true_eq] at hi
    exact decide_eq_true (by omega)
  image := rfl
  low := rfl

theorem FirstNames.valid {m : Mem} {t u : U64} (h : FirstNames m t u) :
    (m (slot t 0)).getLsbD 0 = true := by
  have hptr := h.1
  rw [isPointer, Bool.and_eq_true] at hptr
  exact hptr.1

section Boot

variable {S : ℕ → Bool} {k : MemoryMap} (L : Layout k) {s : Kernel} {done : List Call}

include L in
theorem BootInv.table_ne_zero (h : BootInv S k s done) {p : List ℕ} {t : U64}
    (ht : s.table S p = some t) : t ≠ 0 := by
  have hle := h.tables.le_of_inTable h.maps.inv.next_lt L.freeStart_aligned L.freeStart_lt
    (a := t) ⟨p, t, ht, rfl⟩
  obtain ⟨hfree, hend⟩ := L.toNat_freeStart
  rintro rfl
  change _ ≤ 0 at hle
  omega

/-- The first entry of a table lies in no other page. -/
theorem BootInv.first_ne_slot (h : BootInv S k s done) {p : List ℕ} {t c : U64} {j : ℕ}
    (ht : s.table S p = some t) (hc : Aligned c) (hj : j < 512) (hne : t ≠ c) :
    slot t 0 ≠ slot c j := fun heq =>
  hne (slot_inj (aligned_of_tableAt h.maps.inv.tree.aligned ht) hc (by norm_num) hj heq).1

include L in
/-- The first entries of tables are held, if they are valid. -/
theorem BootInv.held (h : BootInv S k s done) {ts : List U64}
    (htab : ∀ t ∈ ts, ∃ p, s.table S p = some t)
    (hv : ∀ t ∈ ts, (s.mem (slot t 0)).getLsbD 0 = true) :
    Held (ts.map (slot · 0)) s.mem s.kernelRootPtb s where
  root := rfl
  initialized := h.maps.inv.initialized
  next_le := h.maps.inv.next_le
  word _ _ := rfl
  valid := by
    rintro _ hx
    obtain ⟨t, ht, rfl⟩ := List.mem_map.mp hx
    exact hv t ht
  free := by
    rintro _ hx n hn hlt j hj
    obtain ⟨t, ht, rfl⟩ := List.mem_map.mp hx
    obtain ⟨p, hp⟩ := htab t ht
    refine h.first_ne_slot hp (h.maps.inv.free_aligned n hn hlt) hj ?_
    rintro rfl
    exact h.maps.inv.free_fresh n hn hlt p hp
  null := by
    rintro _ hx j hj
    obtain ⟨t, ht, rfl⟩ := List.mem_map.mp hx
    obtain ⟨p, hp⟩ := htab t ht
    exact h.first_ne_slot hp (by decide) hj (h.table_ne_zero L hp)

include L in
/-- `vm_init_kernel` leaves the null page mapped. -/
theorem BootInv.nullPath (h : BootInv S k s (bootCalls k)) : ∃ a b, NullPath s a b ∧
    Held ([s.kernelRootPtb, a, b].map (slot · 0)) s.mem s.kernelRootPtb s := by
  have hnull : s.pte0 S 0 = leafPte 0 0 := h.maps.mapped ⟨0, 0, 0⟩ List.mem_cons_self
  have hvalid : (s.pte0 S 0).getLsbD 0 = true := by
    rw [hnull]
    exact leafPte_valid 0 0
  obtain ⟨b, hb⟩ := exists_table_of_pte0 hvalid
  obtain ⟨a, ha, -, -, -, hptr₁, hb'⟩ := tableAt_cons.mp hb
  obtain ⟨r, hr, -, -, -, hptr₂, ha'⟩ := tableAt_cons.mp ha
  obtain rfl : s.kernelRootPtb = r := Option.some.inj hr
  have hinj := h.maps.inv.tree.inj
  have hroot : s.table S [] = some s.kernelRootPtb := tableAt_nil
  have hlow : FirstNames s.mem b 0 := by
    have hentry : s.mem (slot b 0) = leafPte 0 0 := (pte0_of_table hb).symm.trans hnull
    rw [FirstNames, hentry]
    decide
  have hup : FirstNames s.mem a b := ⟨hptr₁, hb'⟩
  have htop : FirstNames s.mem s.kernelRootPtb a := ⟨hptr₂, ha'⟩
  refine ⟨a, b, ⟨htop, hup, hlow, h.table_ne_zero L hroot, h.table_ne_zero L ha,
    h.table_ne_zero L hb, ?_, ?_⟩, h.held L ?_ ?_⟩
  · rintro rfl
    exact absurd (hinj _ _ _ hroot ha) (by simp)
  · rintro rfl
    exact absurd (hinj _ _ _ hroot hb) (by simp)
  · simp only [List.mem_cons, List.not_mem_nil, or_false, forall_eq_or_imp, forall_eq]
    exact ⟨⟨_, hroot⟩, ⟨_, ha⟩, ⟨_, hb⟩⟩
  · simp only [List.mem_cons, List.not_mem_nil, or_false, forall_eq_or_imp, forall_eq]
    exact ⟨htop.valid, hup.valid, hlow.valid⟩

end Boot

/-- While its entries are held, the null page stays mapped. -/
theorem NullPath.of_held {s₀ s : Kernel} {a b : U64} (h : NullPath s₀ a b)
    (hheld : Held ([s₀.kernelRootPtb, a, b].map (slot · 0)) s₀.mem s₀.kernelRootPtb s) :
    NullPath s a b := by
  have hword : ∀ t ∈ [s₀.kernelRootPtb, a, b], s.mem (slot t 0) = s₀.mem (slot t 0) := fun t ht =>
    hheld.word _ (List.mem_map.mpr ⟨t, ht, rfl⟩)
  have hfirst : ∀ t ∈ [s₀.kernelRootPtb, a, b], ∀ u, FirstNames s₀.mem t u →
      FirstNames s.mem t u := by
    intro t ht u hu
    rw [FirstNames, hword t ht]
    exact hu
  have hroot := hheld.root
  refine ⟨?_, hfirst a (by simp) b h.upper, hfirst b (by simp) 0 h.lower, ?_, h.upper_ne,
    h.lower_ne, ?_, ?_⟩
  · rw [hroot]
    exact hfirst _ (by simp) a h.root
  · exact hroot ▸ h.root_ne
  · exact hroot ▸ h.root_ne_upper
  · exact hroot ▸ h.root_ne_lower

section Run

variable {k : MemoryMap} (L : Layout k) {fuel : ℕ} (hfuel : 262144 < fuel) {s : Kernel}
  (h : FrameRun (RootClean unwalkedSlots k) (fun _ => True) k fuel s)

include L hfuel h in
/-- In every reachable state the null page is mapped where `vm_init_kernel` mapped it. -/
theorem FrameRun.nullPath : ∃ a b, NullPath s a b := by
  obtain ⟨a, b, s₀, hnull, hheld⟩ : ∃ a b s₀, NullPath s₀ a b ∧
      Held ([s₀.kernelRootPtb, a, b].map (slot · 0)) s₀.mem s₀.kernelRootPtb s := by
    induction h with
    | @init _ s' hk hev hclean hrun =>
      obtain ⟨_, s₁, hrun₁, h₁, -⟩ :=
        run_initKernel unwalkedSlots_bootSlots L hfuel hk hclean hev
      rw [hrun] at hrun₁
      cases hrun₁
      obtain ⟨a, b, hnull, hheld⟩ := h₁.nullPath L
      exact ⟨a, b, s', hnull, hheld⟩
    | call _ _ _ hrun ih =>
      obtain ⟨a, b, s₀, hnull, hheld⟩ := ih
      exact ⟨a, b, s₀, hnull, hheld.vmMapPage hrun⟩
  exact ⟨a, b, hnull.of_held hheld⟩

include L hfuel h in
/-- **`dump_ptbs` never does its job**: in no state reached by `vm_init_kernel` and any calls of
`vm_map_page` that return does it visit exactly the page tables and count them, whether the null
pointer it pops is taken for a visit or not. -/
theorem dump_ptbs_not_tables :
    ¬ DumpsTables Dump.popped s ∧ ¬ DumpsTables Dump.scanned s := by
  obtain ⟨a, b, hnull⟩ := FrameRun.nullPath L hfuel h
  exact hnull.not_dumpsTables

end Run

/-- The small image, after one more page was mapped in the lower half. -/
theorem dump_ptbs_not_tables_low :
    ∃ s r s', initKernel 262145 smallBoot = .ok () s ∧
      vmMapPage physical 0x40000000 0x80000000 PTE.read s = .ok r s' ∧ r = 0 ∧
      ¬ DumpsTables Dump.popped s' ∧ ¬ DumpsTables Dump.scanned s' := by
  obtain ⟨_, s, hrun, hb, -⟩ := run_initKernel directSlots_bootSlots smallMap_layout lt_smallFuel
    (s := smallBoot) rfl smallBoot_clean rfl
  have hinit : FrameRun (RootClean unwalkedSlots smallMap) (fun _ => True) smallMap 262145 s :=
    FrameRun.init rfl rfl smallBoot_clean hrun
  have hok : Acceptable 0x40000000 0x80000000 := by decide
  have hnew : (s.pte0 directSlots 0x40000000).getLsbD 0 = false := by
    rw [Bool.eq_false_iff]
    intro hv
    obtain ⟨t, ht⟩ := exists_table_of_pte0 hv
    have hpath := mem_bootPaths.mp (hb.within _ _ ht)
    rw [show vpn 0x40000000 1 = 0 from by decide, show vpn 0x40000000 2 = 1 from by decide] at hpath
    simp at hpath
  obtain ⟨hv, -⟩ | ⟨-, t, s₁, -, -, hcall⟩ | ⟨hdry, -⟩ :=
    vmMapPage_cases hb.maps.inv hok (by decide) PTE.read
  · rw [hnew] at hv
    cases hv
  · exact ⟨s, 0, _, hrun, hcall, rfl, dump_ptbs_not_tables smallMap_layout lt_smallFuel
      (hinit.call hok trivial hcall)⟩
  · have hnext := hb.next_le smallMap_layout
    unfold allocListSize at hdry
    omega

/-- The small image, right after `vm_init_kernel`. -/
theorem dump_ptbs_not_tables_boot :
    ∃ s, initKernel 262145 smallBoot = .ok () s ∧
      ¬ DumpsTables Dump.popped s ∧ ¬ DumpsTables Dump.scanned s := by
  obtain ⟨_, s, hrun, hb, -⟩ := run_initKernel directSlots_bootSlots smallMap_layout lt_smallFuel
    (s := smallBoot) rfl smallBoot_clean rfl
  obtain ⟨a, b, hnull, -⟩ := hb.nullPath smallMap_layout
  exact ⟨s, hrun, hnull.not_dumpsTables⟩

end RvKernel.Mm
