/-
# The last page (`alloc_get_page`)

`alloc_get_page` refuses at `next == ALLOC_LIST_SIZE - 1`, where the list still has its last entry.
So it refuses one page early, and the last page of the list is never handed out: no pop and no push
ever gets to its entry (`AllocRun.last`).  `alloc_refuses_iff` says so of every run.
-/
import RvKernel.Mm.Alloc

namespace RvKernel.Mm

open Sv39

/-! ## 1. The last entry -/

/-- The call fails: if it returns at all, it returns 0. -/
def Refuses (s : Kernel) : Prop := ∀ p s', allocGetPage s = .ok p s' → p = 0

/-- The page at the end of the list. -/
def lastPage (start : U64) : U64 := pageAt start (allocListSize - 1)

/-- The page the next call hands out. -/
theorem Conserved.next_mem {start : U64} {a : AllocT} {live : List U64}
    (h : Conserved start a live) :
    a.list a.next ∈ initialList start := by
  have hle := h.next_le
  refine h.mem (Or.inr ?_)
  rw [free_pop (by unfold allocListSize at *; omega)]
  exact List.mem_cons_self

/-- The last entry is always one of the free ones. -/
theorem last_mem_free {a : AllocT} (h : a.next ≤ allocListSize - 1) :
    a.list (allocListSize - 1) ∈ a.free := by
  refine List.mem_map_of_mem (List.mem_range'_1.mpr ⟨h, ?_⟩)
  unfold allocListSize at *
  omega

/-- `alloc_init` fills the list in order. -/
theorem list_allocInit {start : U64} {s s' : Kernel} (h : allocInit start s = .ok 0 s') {i : ℕ}
    (hi : i < allocListSize) : s'.alloc.list i = pageAt start i := by
  rw [run_allocInit (aligned_of_allocInit h)] at h
  injection h with _ hs
  rw [← hs]
  exact if_pos hi

section Run

variable {mmu : Mmu} {start : U64} (hz : ∀ p ∈ initialList start, p ≠ 0)

include hz in
/-- The call fails just if all pages but one are live. -/
theorem AllocRun.refuses_iff {s : Kernel} {live : List U64} (h : AllocRun mmu start s live) :
    Refuses s ↔ live.length = allocListSize - 1 := by
  obtain ⟨-, hc⟩ := h.conserves hz
  rw [← hc.next_eq]
  constructor
  · intro href
    by_contra hn
    exact hz _ hc.next_mem (href _ _ (run_allocGetPage hc.initialized hn))
  · intro hn p s' hg
    obtain ⟨hn', -, -⟩ | ⟨-, hp, -⟩ := allocGetPage_cases hc.initialized hg
    · exact absurd hn hn'
    · exact hp

/-- A pop leaves the last entry... -/
theorem last_pop {a : AllocT} (h : a.next ≠ allocListSize - 1) :
    a.pop.list (allocListSize - 1) = a.list (allocListSize - 1) :=
  Function.update_of_ne (Ne.symm h) _ _

/-- ...and so does a push. -/
theorem last_push {a : AllocT} (pa : U64) (h : a.next ≤ allocListSize - 1) :
    (a.push pa).list (allocListSize - 1) = a.list (allocListSize - 1) := by
  refine Function.update_of_ne ?_ _ _
  unfold allocListSize at *
  omega

theorem last_get {s s' : Kernel} {p : U64} (hi : s.alloc.initialized = true)
    (h : allocGetPage s = .ok p s') :
    s'.alloc.list (allocListSize - 1) = s.alloc.list (allocListSize - 1) := by
  obtain ⟨hn, -, rfl⟩ | ⟨-, -, rfl⟩ := allocGetPage_cases hi h
  · exact last_pop hn
  · rfl

include hz in
/-- **The last entry of the list holds the last page**, in every run. -/
theorem AllocRun.last {s : Kernel} {live : List U64} (h : AllocRun mmu start s live) :
    s.alloc.list (allocListSize - 1) = lastPage start := by
  induction h with
  | init hinit => exact list_allocInit hinit (Nat.sub_lt (Nat.succ_pos _) Nat.one_pos)
  | get hrun hg ih =>
    obtain ⟨-, hc⟩ := hrun.conserves hz
    exact (last_get hc.initialized hg).trans ih
  | zero hrun hzero ih =>
    obtain ⟨-, hc⟩ := hrun.conserves hz
    obtain ⟨s₁, hg, halloc⟩ := allocZeroPage_get hzero
    rw [halloc]
    exact (last_get hc.initialized hg).trans ih
  | @free s s' live p r hrun hp hf ih =>
    obtain ⟨ha, hc⟩ := hrun.conserves hz
    rw [hc.run_allocFreePage ha hp] at hf
    injection hf with _ hs
    rw [← hs]
    exact (last_push p hc.next_le).trans ih

include hz in
/-- So the last page is never live. -/
theorem AllocRun.last_not_live {s : Kernel} {live : List U64} (h : AllocRun mmu start s live) :
    lastPage start ∉ live := by
  obtain ⟨-, hc⟩ := h.conserves hz
  have hle := hc.next_le
  have hfree : lastPage start ∈ s.alloc.free := by
    rw [← h.last hz]
    exact last_mem_free hle
  have hnodup := hc.perm.nodup_iff.mpr nodup_initialList
  exact fun hlive => (List.nodup_append.mp hnodup).2.2 _ hlive _ hfree rfl

/-! ## 2. The other pages -/

/-- The pages of the list in front of an index, the last one first. -/
def firstPages (start : U64) : ℕ → List U64
  | 0 => []
  | k + 1 => pageAt start k :: firstPages start k

theorem length_firstPages (k : ℕ) : (firstPages start k).length = k := by
  induction k with
  | zero => rfl
  | succ k ih => rw [firstPages, List.length_cons, ih]

variable (mmu) in
include hz in
/-- **The pages are handed out in order**, as many as there are but one. -/
theorem exists_run (ha : Aligned start) {k : ℕ} (hk : k ≤ allocListSize - 1) :
    ∃ s, AllocRun mmu start s (firstPages start k) ∧ s.alloc.next = k ∧
      ∀ i, k ≤ i → i < allocListSize → s.alloc.list i = pageAt start i := by
  induction k with
  | zero =>
    have hinit := run_allocInit (s := Kernel.boot fun _ => 0) ha
    exact ⟨_, .init hinit, rfl, fun i _ hi => list_allocInit hinit hi⟩
  | succ k ih =>
    obtain ⟨s, hrun, hnext, hlist⟩ := ih (by omega)
    obtain ⟨-, hc⟩ := hrun.conserves hz
    have hpage : s.alloc.list s.alloc.next = pageAt start k := by
      rw [hnext]
      exact hlist k le_rfl (by omega)
    have hne : pageAt start k ≠ 0 := by
      rw [← hpage]
      exact hz _ hc.next_mem
    have hget := hrun.get (run_allocGetPage hc.initialized (by rw [hnext]; omega))
    rw [hpage, handOut, if_neg hne] at hget
    refine ⟨_, hget, congrArg (· + 1) hnext, ?_⟩
    intro i hi hlt
    refine (Function.update_of_ne ?_ _ _).trans (hlist i (by omega) hlt)
    rw [hnext]
    omega

end Run

/-! ## 3. Exhaustion -/

/-- **When the allocator does what it should**, with no page at address 0: in a state that a run
reaches, failing just if all pages are live is right as long as more than one page is free; and the
pages that can be handed out are all but the last one. -/
theorem alloc_refuses_iff (mmu : Mmu) {start : U64} (ha : Aligned start)
    (hz : ∀ p ∈ initialList start, p ≠ 0) :
    (∀ s live, AllocRun mmu start s live →
      ((Refuses s ↔ live.length = allocListSize) ↔ live.length < allocListSize - 1)) ∧
      ∀ p ∈ initialList start,
        (∃ s live, AllocRun mmu start s live ∧ p ∈ live) ↔ p ≠ lastPage start := by
  have hsize : allocListSize = 32768 := rfl
  constructor
  · intro s live h
    have hle := (h.conserves hz).2.next_le
    rw [(h.conserves hz).2.next_eq] at hle
    rw [h.refuses_iff hz]
    omega
  · intro p hp
    constructor
    · rintro ⟨s, live, hrun, hmem⟩ rfl
      exact hrun.last_not_live hz hmem
    · intro hne
      obtain ⟨i, hi, rfl⟩ := List.mem_map.mp hp
      have hlt := List.mem_range.mp hi
      have hi' : i ≠ allocListSize - 1 := fun h => hne (congrArg (pageAt start) h)
      obtain ⟨s, hrun, -, -⟩ := exists_run mmu hz ha (k := i + 1) (by omega)
      exact ⟨s, _, hrun, List.mem_cons_self⟩

/-- No page from `0x80200000` on is at address 0. -/
theorem ne_zero_of_mem_ram : ∀ p ∈ initialList 0x80200000, p ≠ 0 :=
  fun _ hp => ne_zero_of_mem_initialList (by decide) (by decide) hp

theorem mem_initialList {start : U64} {i : ℕ} (hi : i < allocListSize) :
    pageAt start i ∈ initialList start := List.mem_map_of_mem (List.mem_range.mpr hi)

/-- From `0x80200000` on, the first page can be handed out and the last one cannot. -/
theorem alloc_refuses_iff_ram :
    (∃ s live, AllocRun physical 0x80200000 s live ∧ pageAt 0x80200000 0 ∈ live) ∧
      ¬ ∃ s live, AllocRun physical 0x80200000 s live ∧ lastPage 0x80200000 ∈ live := by
  have ha : Aligned 0x80200000 := by decide
  have hlast : allocListSize - 1 < allocListSize := Nat.sub_lt (Nat.succ_pos _) Nat.one_pos
  obtain ⟨-, hpages⟩ := alloc_refuses_iff physical ha ne_zero_of_mem_ram
  constructor
  · refine (hpages _ (mem_initialList (Nat.succ_pos _))).mpr fun h => ?_
    exact absurd (pageAt_inj (Nat.succ_pos _) hlast h) (by decide)
  · exact fun h => (hpages _ (mem_initialList hlast)).mp h rfl

/-- After `ALLOC_LIST_SIZE - 1` allocations the call fails, with a page left. -/
theorem alloc_refuses_early :
    ¬ ∀ s live, AllocRun physical 0x80200000 s live →
      (Refuses s ↔ live.length = allocListSize) := by
  intro h
  have ha : Aligned 0x80200000 := by decide
  obtain ⟨s, hrun, -, -⟩ := exists_run physical ne_zero_of_mem_ram ha le_rfl
  have hall := (h s _ hrun).mp ((hrun.refuses_iff ne_zero_of_mem_ram).mpr (length_firstPages _))
  rw [length_firstPages] at hall
  exact absurd hall (Nat.sub_lt (Nat.succ_pos _) Nat.one_pos).ne

end RvKernel.Mm
