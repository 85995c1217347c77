/-
# The physical page allocator (`alloc.c`)

A stack of free pages: `alloc.list[next..]` are free, `alloc_get_page` pops and `alloc_free_page`
pushes.  The invariant of the whole life of the allocator is conservation: the pages that are out
(the LIVE pages, which only the callers know) and the free suffix of the list are together a
permutation of the initial list (`Conserved`), whatever the order of the frees.
-/
import RvKernel.Mm.State

namespace RvKernel.Mm

open Sv39

/-- `ALLOC_LIST_SIZE`. -/
def allocListSize : ℕ := 4096 * 8

/-- `PAGE_SIZE`. -/
def pageSize : U64 := 1 <<< 12

/-- `PAGE_MASK`. -/
def pageMask : U64 := ~~~(pageSize - 1)

/-- `IS_ALIGNED(addr)`. -/
def isAligned (addr : U64) : Bool := addr &&& ~~~pageMask == 0

theorem isAligned_iff (addr : U64) : isAligned addr = true ↔ Aligned addr := by
  have hmask : ~~~pageMask = BitVec.ofNat 64 (2 ^ 12 - 1) := by decide
  unfold isAligned Aligned
  rw [beq_iff_eq, ← BitVec.toNat_inj, hmask, Word.toNat_and_low _ _ (by norm_num)]
  rfl

/-! ## 1. The operations -/

/-- `alloc_init(start)`; the loop fills the whole list. -/
def allocInit (start : U64) : KM Int := do
  if !isAligned start then
    critical (.allocInitMisaligned start)
    BUG .allocInit
    return -1
  else
    modify fun s => { s with alloc := {
      list := fun i => if i < allocListSize then start + BitVec.ofNat 64 i * pageSize
        else s.alloc.list i
      next := 0
      initialized := true } }
    return 0

/-- `alloc_get_page()`. -/
def allocGetPage : KM U64 := do
  let alloc := (← get).alloc
  if !alloc.initialized then
    critical .allocUninitialized
    BUG .allocGetPage
    return 0
  else if alloc.next = allocListSize - 1 then
    critical .allocExhausted
    BUG .allocGetPage
    return 0
  else
    let pa := alloc.list alloc.next
    modify fun s => { s with alloc := { alloc with
      list := Function.update alloc.list alloc.next 0, next := alloc.next + 1 } }
    return pa

/-- `alloc_zero_page()`.  The `memset` is made whatever `alloc_get_page` returned. -/
def allocZeroPage (mmu : Mmu) : KM U64 := do
  let addr ← allocGetPage
  memset mmu addr 0 512
  emit (.zeroPage addr)
  return addr

/-- `alloc_free_page(pa)`. -/
def allocFreePage (pa : U64) : KM Int := do
  let alloc := (← get).alloc
  if !alloc.initialized then
    critical .freeUninitialized
    BUG .allocFreePage
    return -1
  else if !isAligned pa then
    critical .freeMisaligned
    BUG .allocFreePage
    return -1
  else if alloc.next = 0 then
    critical .freeNothing
    BUG .allocFreePage
    return -1
  else
    modify fun s => { s with alloc := { alloc with
      list := Function.update alloc.list (alloc.next - 1) pa, next := alloc.next - 1 } }
    return 0

/-! ## 2. What one call does -/

section Calls

variable {s : Kernel}

/-- The allocator after a successful `alloc_get_page`. -/
def AllocT.pop (a : AllocT) : AllocT :=
  { a with list := Function.update a.list a.next 0, next := a.next + 1 }

/-- The allocator after `alloc_free_page(pa)`. -/
def AllocT.push (a : AllocT) (pa : U64) : AllocT :=
  { a with list := Function.update a.list (a.next - 1) pa, next := a.next - 1 }

/-- The state after a refused call under `BUG_LOG`: two messages. -/
def Kernel.refuse (s : Kernel) (msg : Msg) (func : Func) : Kernel :=
  { s with events := s.events ++ [.critical msg, .critical (.bug func)] }

theorem run_critical_BUG (hb : s.bugBehavior = .bugLog) (msg : Msg) (func : Func) {α : Type}
    (r : α) : (do critical msg; BUG func; return r : KM α) s = .ok r (s.refuse msg func) := by
  simp [Kernel.refuse, run_BUG_log, hb]

theorem run_allocInit {start : U64} (h : Aligned start) :
    allocInit start s = .ok 0 { s with alloc := {
      list := fun i => if i < allocListSize then start + BitVec.ofNat 64 i * pageSize
        else s.alloc.list i
      next := 0
      initialized := true } } := by
  simp [allocInit, (isAligned_iff start).mpr h]

theorem run_allocGetPage (hi : s.alloc.initialized = true)
    (hn : s.alloc.next ≠ allocListSize - 1) :
    allocGetPage s = .ok (s.alloc.list s.alloc.next) { s with alloc := s.alloc.pop } := by
  simp [allocGetPage, AllocT.pop, hi, hn]

theorem run_allocGetPage_exhausted (hb : s.bugBehavior = .bugLog)
    (hi : s.alloc.initialized = true) (hn : s.alloc.next = allocListSize - 1) :
    allocGetPage s = .ok 0 (s.refuse .allocExhausted .allocGetPage) := by
  simp only [allocGetPage, Effect.run_bind, Effect.run_get, hi, hn]
  exact run_critical_BUG hb _ _ _

theorem run_allocFreePage (hi : s.alloc.initialized = true) {pa : U64} (hp : Aligned pa)
    (hn : s.alloc.next ≠ 0) :
    allocFreePage pa s = .ok 0 { s with alloc := s.alloc.push pa } := by
  simp [allocFreePage, AllocT.push, hi, hn, (isAligned_iff pa).mpr hp]

/-- `alloc_zero_page` is `alloc_get_page` as far as the allocator is concerned. -/
theorem run_allocZeroPage {mmu : Mmu} (hmmu : ∀ m p, (mmu m p).isSome) {p : U64} {s₁ : Kernel}
    (h : allocGetPage s = .ok p s₁) :
    ∃ mem' es, allocZeroPage mmu s = .ok p { s₁ with mem := mem', events := s₁.events ++ es } := by
  obtain ⟨mem', es, hm⟩ := run_memset hmmu 0 512 p s₁
  refine ⟨mem', es ++ [.zeroPage p], ?_⟩
  simp only [allocZeroPage, Effect.run_bind, h, hm, run_emit, Effect.run_pure, List.append_assoc]

/-- Whatever `alloc_get_page` answers, it either pops the next page or, refusing, returns 0 and
leaves the allocator as it was. -/
theorem allocGetPage_cases {p : U64} {s' : Kernel} (hi : s.alloc.initialized = true)
    (h : allocGetPage s = .ok p s') :
    (s.alloc.next ≠ allocListSize - 1 ∧ p = s.alloc.list s.alloc.next ∧
        s' = { s with alloc := s.alloc.pop }) ∨
      (s.alloc.next = allocListSize - 1 ∧ p = 0 ∧
        s' = s.refuse .allocExhausted .allocGetPage) := by
  by_cases hn : s.alloc.next = allocListSize - 1
  · refine Or.inr ⟨hn, ?_⟩
    cases hb : s.bugBehavior with
    | bugLog =>
      rw [run_allocGetPage_exhausted hb hi hn] at h
      injection h with h1 h2
      exact ⟨h1.symm, h2.symm⟩
    | bugPanic =>
      simp [allocGetPage, hi, hn, run_BUG_panic, hb] at h
  · refine Or.inl ⟨hn, ?_⟩
    rw [run_allocGetPage hi hn] at h
    injection h with h1 h2
    exact ⟨h1.symm, h2.symm⟩

theorem Logs.allocInit (start : U64) : Logs (Mm.allocInit start) := by
  refine Logs.ite ?_ (Logs.bind (Logs.of_modify (fun s => ?_) fun s => ?_) fun _ => Logs.pure _)
  · exact (Logs.emit _).bind fun _ => (Logs.BUG _).bind fun _ => Logs.pure _
  · exact List.prefix_rfl
  · rfl

theorem Logs.allocGetPage : Logs Mm.allocGetPage := by
  refine Logs.get.bind fun s => Logs.ite ?_ (Logs.ite ?_ ?_)
  · exact (Logs.emit _).bind fun _ => (Logs.BUG _).bind fun _ => Logs.pure _
  · exact (Logs.emit _).bind fun _ => (Logs.BUG _).bind fun _ => Logs.pure _
  · refine Logs.bind (Logs.of_modify (fun s => ?_) fun s => ?_) fun _ => Logs.pure _
    · exact List.prefix_rfl
    · rfl

theorem Logs.allocZeroPage (mmu : Mmu) : Logs (Mm.allocZeroPage mmu) :=
  Logs.allocGetPage.bind fun _ => (Logs.memset _ _ _ _).bind fun _ => (Logs.emit _).bind fun _ =>
    Logs.pure _

/-- The allocator has refused a page at some point of the run. -/
def Kernel.Exhausted (s : Kernel) : Prop := .critical .allocExhausted ∈ s.events

theorem exhausted_allocGetPage (hi : s.alloc.initialized = true)
    (hn : s.alloc.next = allocListSize - 1) : (final (allocGetPage s)).Exhausted := by
  have hc : Event.critical .allocExhausted ∈ (final (critical .allocExhausted s)).events := by
    simp [final]
  simp only [allocGetPage, Effect.run_bind, Effect.run_get, hi, hn]
  exact mem_events_bind (x := critical .allocExhausted)
    (fun _ => (Logs.BUG _).bind fun _ => Logs.pure _) hc

end Calls

/-! ## 3. The free suffix -/

/-- The pages `alloc.list[next..ALLOC_LIST_SIZE)`. -/
def AllocT.free (a : AllocT) : List U64 :=
  (List.range' a.next (allocListSize - a.next)).map a.list

/-- The page that `alloc_init(start)` puts at index `i` of the list. -/
def pageAt (start : U64) (i : ℕ) : U64 := start + BitVec.ofNat 64 i * pageSize

/-- The list as `alloc_init(start)` fills it. -/
def initialList (start : U64) : List U64 := (List.range allocListSize).map (pageAt start)

theorem free_pop {a : AllocT} (h : a.next < allocListSize) :
    a.free = a.list a.next :: a.pop.free := by
  unfold AllocT.free AllocT.pop
  rw [show allocListSize - a.next = (allocListSize - (a.next + 1)) + 1 by omega, List.range'_succ,
    List.map_cons]
  congr 1
  refine List.map_congr_left fun i hi => ?_
  rw [List.mem_range'_1] at hi
  exact (Function.update_of_ne (by omega) _ _).symm

theorem free_push {a : AllocT} (pa : U64) (h0 : a.next ≠ 0) (h : a.next ≤ allocListSize) :
    (a.push pa).free = pa :: a.free := by
  rw [free_pop (by simp only [AllocT.push]; omega)]
  simp only [AllocT.free, AllocT.pop, AllocT.push]
  rw [Function.update_self, show a.next - 1 + 1 = a.next by omega]
  congr 1
  refine List.map_congr_left fun i hi => ?_
  rw [List.mem_range'_1] at hi
  rw [Function.update_of_ne (by omega), Function.update_of_ne (by omega)]

theorem toNat_pageSize : pageSize.toNat = 4096 := by decide

/-- Pages are counted off without wrapping around. -/
theorem toNat_pageAt_of_lt {start : U64} {i : ℕ} (h : start.toNat + i * 4096 < 2 ^ 64) :
    (pageAt start i).toNat = start.toNat + i * 4096 := by
  rw [pageAt, BitVec.toNat_add, BitVec.toNat_mul, BitVec.toNat_ofNat, toNat_pageSize]
  omega

section InitialList

variable {start : U64} (ha : Aligned start) (hlt : start.toNat + allocListSize * 4096 < 2 ^ 64)

include hlt in
theorem toNat_pageAt {i : ℕ} (hi : i < allocListSize) :
    (pageAt start i).toNat = start.toNat + i * 4096 := by
  have hle : i * 4096 ≤ allocListSize * 4096 := Nat.mul_le_mul_right 4096 hi.le
  exact toNat_pageAt_of_lt (lt_of_le_of_lt (Nat.add_le_add_left hle _) hlt)

/-- All pages are distinct: the list is too short to wrap around. -/
theorem pageAt_inj {i j : ℕ} (hi : i < allocListSize) (hj : j < allocListSize)
    (h : pageAt start i = pageAt start j) : i = j := by
  have hsize : allocListSize = 32768 := rfl
  have hmul := congrArg BitVec.toNat ((BitVec.add_right_inj start).mp h)
  simp only [BitVec.toNat_mul, BitVec.toNat_ofNat, toNat_pageSize] at hmul
  omega

include ha in
theorem aligned_pageAt (i : ℕ) : Aligned (pageAt start i) := by
  unfold Aligned at ha ⊢
  rw [pageAt, BitVec.toNat_add, BitVec.toNat_mul, BitVec.toNat_ofNat, toNat_pageSize]
  omega

theorem nodup_initialList : (initialList start).Nodup := by
  refine List.Nodup.map_on ?_ List.nodup_range
  intro i hi j hj h
  exact pageAt_inj (List.mem_range.mp hi) (List.mem_range.mp hj) h

include ha in
theorem aligned_of_mem_initialList {p : U64} (hp : p ∈ initialList start) : Aligned p := by
  obtain ⟨i, -, rfl⟩ := List.mem_map.mp hp
  exact aligned_pageAt ha i

include hlt in
theorem ne_zero_of_mem_initialList (h0 : start ≠ 0) {p : U64} (hp : p ∈ initialList start) :
    p ≠ 0 := by
  obtain ⟨i, hi, rfl⟩ := List.mem_map.mp hp
  intro h
  have hn := congrArg BitVec.toNat h
  rw [toNat_pageAt hlt (List.mem_range.mp hi)] at hn
  refine h0 (BitVec.eq_of_toNat_eq ?_)
  simp only [BitVec.ofNat_eq_ofNat, BitVec.toNat_ofNat] at hn ⊢
  omega

end InitialList

/-! ## 4. The allocator over a whole run -/

/-- The caller's view of a call: a zero result is a failed allocation. -/
def handOut (p : U64) (live : List U64) : List U64 := if p = 0 then live else p :: live

/-- `AllocRun mmu start s live`: some sequence of calls after `alloc_init(start)`, in which every
page freed was live, has led to the state `s` with the pages `live` handed out and not freed. -/
inductive AllocRun (mmu : Mmu) (start : U64) : Kernel → List U64 → Prop
  | init {s₀ s : Kernel} : allocInit start s₀ = .ok 0 s → AllocRun mmu start s []
  | get {s s' : Kernel} {live : List U64} {p : U64} :
      AllocRun mmu start s live → allocGetPage s = .ok p s' →
      AllocRun mmu start s' (handOut p live)
  | zero {s s' : Kernel} {live : List U64} {p : U64} :
      AllocRun mmu start s live → allocZeroPage mmu s = .ok p s' →
      AllocRun mmu start s' (handOut p live)
  | free {s s' : Kernel} {live : List U64} {p : U64} {r : Int} :
      AllocRun mmu start s live → p ∈ live → allocFreePage p s = .ok r s' →
      AllocRun mmu start s' (live.erase p)

/-- **Conservation.**  Every page of the initial list is either live or free, never both. -/
structure Conserved (start : U64) (a : AllocT) (live : List U64) : Prop where
  initialized : a.initialized = true
  perm : (live ++ a.free).Perm (initialList start)
  next_eq : a.next = live.length
  next_le : a.next ≤ allocListSize - 1

theorem Conserved.mem {start p : U64} {a : AllocT} {live : List U64} (h : Conserved start a live)
    (hp : p ∈ live ∨ p ∈ a.free) : p ∈ initialList start :=
  h.perm.mem_iff.mp (List.mem_append.mpr hp)

theorem Conserved.init {start : U64} (a : AllocT) : Conserved start
    { list := fun i => if i < allocListSize then start + BitVec.ofNat 64 i * pageSize else a.list i
      next := 0
      initialized := true } [] := by
  refine ⟨rfl, ?_, rfl, Nat.zero_le _⟩
  rw [List.nil_append, AllocT.free, initialList, ← List.range_eq_range']
  refine List.Perm.of_eq (List.map_congr_left fun i hi => ?_)
  rw [Nat.sub_zero, List.mem_range] at hi
  simp only [if_pos hi, pageAt]

/-- A pop moves the head of the free suffix to the live pages. -/
theorem Conserved.pop {start : U64} {a : AllocT} {live : List U64} (h : Conserved start a live)
    (hn : a.next ≠ allocListSize - 1) : Conserved start a.pop (a.list a.next :: live) := by
  have hle := h.next_le
  refine ⟨h.initialized, ?_, ?_, ?_⟩
  · have hperm := h.perm
    rw [free_pop (by unfold allocListSize at *; omega)] at hperm
    exact List.perm_middle.symm.trans hperm
  · simp only [AllocT.pop, List.length_cons, h.next_eq]
  · simp only [AllocT.pop]
    omega

/-- A free moves a live page back, wherever in the list the pages have drifted to. -/
theorem Conserved.push {start p : U64} {a : AllocT} {live : List U64} (h : Conserved start a live)
    (hp : p ∈ live) : Conserved start (a.push p) (live.erase p) := by
  have hle := h.next_le
  have hpos : 0 < live.length := List.length_pos_of_mem hp
  have hlen := List.length_erase_of_mem hp
  have hnext := h.next_eq
  refine ⟨h.initialized, ?_, ?_, ?_⟩
  · rw [free_push p (by omega) (by omega)]
    have hback : (p :: (live.erase p ++ a.free)).Perm (live ++ a.free) :=
      (List.perm_cons_erase hp).symm.append_right _
    exact List.perm_middle.trans (hback.trans h.perm)
  · simp only [AllocT.push]
    omega
  · simp only [AllocT.push]
    omega

/-- A call of `alloc_get_page`, successful or not, conserves the pages. -/
theorem Conserved.get {start p : U64} {s s' : Kernel} {live : List U64}
    (h : Conserved start s.alloc live) (hne : ∀ q ∈ initialList start, q ≠ 0)
    (hg : allocGetPage s = .ok p s') : Conserved start s'.alloc (handOut p live) := by
  obtain ⟨hn, rfl, rfl⟩ | ⟨-, rfl, rfl⟩ := allocGetPage_cases h.initialized hg
  · have hpop := h.pop hn
    rw [handOut, if_neg (hne _ (hpop.mem (Or.inl List.mem_cons_self)))]
    exact hpop
  · exact h

/-- `alloc_init` succeeds at aligned addresses only. -/
theorem aligned_of_allocInit {start : U64} {s s' : Kernel} (h : allocInit start s = .ok 0 s') :
    Aligned start := by
  by_contra hna
  have hfail : isAligned start = false :=
    Bool.eq_false_iff.mpr (mt (isAligned_iff start).mp hna)
  cases hb : s.bugBehavior with
  | bugLog =>
    have hrun : allocInit start s
        = .ok (-1) (s.refuse (.allocInitMisaligned start) .allocInit) := by
      simp only [allocInit, hfail, Bool.not_false, if_true]
      exact run_critical_BUG hb _ _ _
    rw [hrun] at h
    injection h with hres _
    exact absurd hres (by decide)
  | bugPanic => simp [allocInit, hfail, run_BUG_panic, hb] at h

/-- `alloc_zero_page` returns only if its `alloc_get_page` did, with the same page. -/
theorem allocZeroPage_get {mmu : Mmu} {s s' : Kernel} {p : U64}
    (h : allocZeroPage mmu s = .ok p s') :
    ∃ s₁, allocGetPage s = .ok p s₁ ∧ s'.alloc = s₁.alloc := by
  obtain ⟨q, s₁, hg, hrest⟩ := Effect.bind_eq_ok.mp h
  obtain ⟨_, s₂, hm, hrest⟩ := Effect.bind_eq_ok.mp hrest
  cases hrest
  have hkeep : s₂.alloc = s₁.alloc := alloc_memset hm
  exact ⟨s₁, hg, hkeep⟩

/-- A live page can be freed. -/
theorem Conserved.run_allocFreePage {start p : U64} {s : Kernel} {live : List U64}
    (h : Conserved start s.alloc live) (ha : Aligned start) (hp : p ∈ live) :
    allocFreePage p s = .ok 0 { s with alloc := s.alloc.push p } := by
  have hpos : 0 < live.length := List.length_pos_of_mem hp
  have halig := aligned_of_mem_initialList ha (h.mem (Or.inl hp))
  exact Mm.run_allocFreePage h.initialized halig (by rw [h.next_eq]; omega)

/-- **Every run conserves the pages**, as long as none of them is at address 0. -/
theorem AllocRun.conserves {mmu : Mmu} {start : U64} (hz : ∀ q ∈ initialList start, q ≠ 0)
    {s : Kernel} {live : List U64} (h : AllocRun mmu start s live) :
    Aligned start ∧ Conserved start s.alloc live := by
  induction h with
  | init hinit =>
    have ha := aligned_of_allocInit hinit
    rw [run_allocInit ha] at hinit
    injection hinit with _ hs
    exact ⟨ha, hs ▸ Conserved.init _⟩
  | get _ hg ih => exact ⟨ih.1, ih.2.get hz hg⟩
  | zero _ hzero ih =>
    obtain ⟨s₁, hg, halloc⟩ := allocZeroPage_get hzero
    exact ⟨ih.1, halloc ▸ ih.2.get hz hg⟩
  | @free s s' live p r _ hp hf ih =>
    obtain ⟨ha, hc⟩ := ih
    rw [hc.run_allocFreePage ha hp] at hf
    injection hf with _ hs
    exact ⟨ha, hs ▸ hc.push hp⟩

section Run

variable {mmu : Mmu} (hmmu : ∀ m p, (mmu m p).isSome) {start : U64} (ha : Aligned start)
  (h0 : start ≠ 0) (hlt : start.toNat + allocListSize * 4096 < 2 ^ 64)

include h0 hlt in
theorem AllocRun.conserved {s : Kernel} {live : List U64} (h : AllocRun mmu start s live) :
    Conserved start s.alloc live :=
  (h.conserves fun _ hq => ne_zero_of_mem_initialList hlt h0 hq).2

include hmmu ha h0 hlt in
/-- **No page is lost or duplicated.**  After any run the live pages and the free suffix of the
list are a permutation of the initial list; the live pages are distinct, aligned and nonzero;
`next` counts them and never reaches the last entry; freeing a live page succeeds; and under
`BUG_LOG` both allocation calls return. -/
theorem alloc_run_conserves {s : Kernel} {live : List U64} (h : AllocRun mmu start s live) :
    (live ++ s.alloc.free).Perm (initialList start) ∧ live.Nodup ∧
      (∀ p ∈ live, Aligned p ∧ p ≠ 0) ∧ s.alloc.next = live.length ∧
      s.alloc.next ≤ allocListSize - 1 ∧
      (∀ p ∈ live, ∃ s', allocFreePage p s = .ok 0 s') ∧
      (s.bugBehavior = .bugLog → (∃ p s', allocGetPage s = .ok p s') ∧
        ∃ p s', allocZeroPage mmu s = .ok p s') := by
  have hc := h.conserved h0 hlt
  have hmem : ∀ p ∈ live, p ∈ initialList start := fun p hp => hc.mem (Or.inl hp)
  refine ⟨hc.perm, ?_, ?_, hc.next_eq, hc.next_le, ?_, ?_⟩
  · have hnd := hc.perm.nodup_iff.mpr nodup_initialList
    exact (List.nodup_append.mp hnd).1
  · intro p hp
    exact ⟨aligned_of_mem_initialList ha (hmem p hp),
      ne_zero_of_mem_initialList hlt h0 (hmem p hp)⟩
  · exact fun p hp => ⟨_, hc.run_allocFreePage ha hp⟩
  · intro hb
    have hget : ∃ p s', allocGetPage s = .ok p s' := by
      by_cases hn : s.alloc.next = allocListSize - 1
      · exact ⟨_, _, run_allocGetPage_exhausted hb hc.initialized hn⟩
      · exact ⟨_, _, run_allocGetPage hc.initialized hn⟩
    obtain ⟨p, s₁, hg⟩ := hget
    obtain ⟨mem', es, hz⟩ := run_allocZeroPage hmmu hg
    exact ⟨⟨p, s₁, hg⟩, p, _, hz⟩

end Run

/-- Three pages are taken and the second is given back: the first and the third are out, and the
second is the next one to be handed out. -/
theorem alloc_run_conserves_two_pages :
    ∃ s, AllocRun physical 0x80200000 s [0x80202000, 0x80200000] ∧
      (0x80202000 :: 0x80200000 :: s.alloc.free).Perm (initialList 0x80200000) ∧
      s.alloc.next = 2 ∧ s.alloc.list 2 = 0x80201000 ∧
      ∃ s', allocFreePage 0x80200000 s = .ok 0 s' := by
  have ha : Aligned 0x80200000 := by decide
  obtain ⟨s, hrun, hlist⟩ : ∃ s, AllocRun physical 0x80200000 s [0x80202000, 0x80200000] ∧
      s.alloc.list 2 = 0x80201000 := by
    have hinit := run_allocInit (s := Kernel.boot fun _ => 0) ha
    have hnone : AllocRun physical 0x80200000 _ [] := .init hinit
    have hfirst := hnone.get (run_allocGetPage rfl (by decide))
    have hsecond := hfirst.get (run_allocGetPage rfl (by decide))
    have hthird := hsecond.get (run_allocGetPage rfl (by decide))
    have hfree := hthird.free (p := 0x80201000) (by decide)
      (run_allocFreePage rfl (by decide) (by decide))
    exact ⟨_, hfree, rfl⟩
  obtain ⟨hperm, -, -, hnext, -, hfrees, -⟩ :=
    alloc_run_conserves (fun _ _ => rfl) ha (by decide) (by decide) hrun
  exact ⟨s, hrun, hperm, hnext, hlist, hfrees _ (by decide)⟩

end RvKernel.Mm
