/-
# Pages freed twice (`alloc_free_page`)

`alloc_free_page` checks the alignment of the page and that some page is out, and nothing else: the
list does not say which pages are out, so a page freed twice, or one that the allocator never had,
is pushed like any other (a STRAY page).  Here the callers free what they like.  The pages that are
out and the free suffix of the list are then a permutation of the initial list AND the strays
(`Accounted`), for good: no call takes a stray back out.

So one stray is enough.  Whoever goes on allocating ends up with one page twice, or with a page that
was never the allocator's (`alloc_sound_iff`), however late that is.
-/
import RvKernel.Mm.Exhaust

namespace RvKernel.Mm

open Sv39

/-! ## 1. Runs of any callers -/

/-- The pages out after a call of `alloc_get_page` that returned `p`: the call has taken a page just
if it has moved on in the list.  A page freed at address 0 comes out as 0, like a failure. -/
def taken (s s' : Kernel) (p : U64) (live : List U64) : List U64 :=
  if s'.alloc.next = s.alloc.next then live else p :: live

/-- The pages out after `alloc_free_page(p)` returned `r`. -/
def returned (r : Int) (p : U64) (live : List U64) : List U64 :=
  if r = 0 then live.erase p else live

/-- The strays after `alloc_free_page(p)` returned `r`: the page was accepted and was not out. -/
def strays (r : Int) (p : U64) (live stray : List U64) : List U64 :=
  if r = 0 ∧ p ∉ live then p :: stray else stray

/-- `AnyRun mmu start s live stray`: some sequence of calls after `alloc_init(start)` has led to the
state `s`, with the pages `live` out and the strays `stray` accepted on the way. -/
inductive AnyRun (mmu : Mmu) (start : U64) : Kernel → List U64 → List U64 → Prop
  | init {s₀ s : Kernel} : allocInit start s₀ = .ok 0 s → AnyRun mmu start s [] []
  | get {s s' : Kernel} {live stray : List U64} {p : U64} :
      AnyRun mmu start s live stray → allocGetPage s = .ok p s' →
      AnyRun mmu start s' (taken s s' p live) stray
  | zero {s s' : Kernel} {live stray : List U64} {p : U64} :
      AnyRun mmu start s live stray → allocZeroPage mmu s = .ok p s' →
      AnyRun mmu start s' (taken s s' p live) stray
  | free {s s' : Kernel} {live stray : List U64} {p : U64} {r : Int} :
      AnyRun mmu start s live stray → allocFreePage p s = .ok r s' →
      AnyRun mmu start s' (returned r p live) (strays r p live stray)

/-- The states that calls of `alloc_get_page` alone lead to, with the pages then out. -/
inductive Allocs (s : Kernel) (live : List U64) : Kernel → List U64 → Prop
  | done : Allocs s live s live
  | get {s₁ s₂ : Kernel} {live₁ : List U64} {p : U64} :
      Allocs s live s₁ live₁ → allocGetPage s₁ = .ok p s₂ →
      Allocs s live s₂ (taken s₁ s₂ p live₁)

/-- A refused call leaves the allocator as it was. -/
theorem alloc_refused {α : Type} {s s' : Kernel} {msg : Msg} {func : Func} {r v : α}
    (h : (do critical msg; BUG func; return r : KM α) s = .ok v s') :
    v = r ∧ s'.alloc = s.alloc := by
  cases hb : s.bugBehavior with
  | bugLog =>
    rw [run_critical_BUG hb] at h
    injection h with hv hs
    exact ⟨hv.symm, hs ▸ rfl⟩
  | bugPanic => simp [run_BUG_panic, hb] at h

/-- Whatever `alloc_free_page` answers, it either pushes the page or, refusing, leaves the allocator
as it was. -/
theorem allocFreePage_cases {s s' : Kernel} {p : U64} {r : Int}
    (hi : s.alloc.initialized = true) (h : allocFreePage p s = .ok r s') :
    (Aligned p ∧ s.alloc.next ≠ 0 ∧ r = 0 ∧ s' = { s with alloc := s.alloc.push p }) ∨
      (r = -1 ∧ s'.alloc = s.alloc) := by
  by_cases ha : Aligned p
  · have hpage : isAligned p = true := (isAligned_iff p).mpr ha
    by_cases hn : s.alloc.next = 0
    · have hrun : allocFreePage p s
          = (do critical .freeNothing; BUG .allocFreePage; return -1 : KM Int) s := by
        simp only [allocFreePage, Effect.run_bind, Effect.run_get, hi, hn, hpage]
        rfl
      exact Or.inr (alloc_refused (hrun.symm.trans h))
    · rw [run_allocFreePage hi ha hn] at h
      injection h with hr hs
      exact Or.inl ⟨ha, hn, hr.symm, hs.symm⟩
  · have hpage : isAligned p = false := Bool.eq_false_iff.mpr (mt (isAligned_iff p).mp ha)
    have hrun : allocFreePage p s
        = (do critical .freeMisaligned; BUG .allocFreePage; return -1 : KM Int) s := by
      simp only [allocFreePage, Effect.run_bind, Effect.run_get, hi, hpage]
      rfl
    exact Or.inr (alloc_refused (hrun.symm.trans h))

/-! ## 2. The account -/

/-- **The account.**  The pages out and the free ones are the pages of the initial list and the
strays. -/
structure Accounted (start : U64) (a : AllocT) (live stray : List U64) : Prop where
  initialized : a.initialized = true
  perm : (live ++ a.free).Perm (initialList start ++ stray)
  next_le : a.next ≤ allocListSize - 1
  last : a.list (allocListSize - 1) = lastPage start

theorem Accounted.pop {start : U64} {a : AllocT} {live stray : List U64}
    (h : Accounted start a live stray) (hn : a.next ≠ allocListSize - 1) :
    Accounted start a.pop (a.list a.next :: live) stray := by
  have hle := h.next_le
  refine ⟨h.initialized, ?_, ?_, (last_pop hn).trans h.last⟩
  · have hperm := h.perm
    rw [free_pop (by unfold allocListSize at *; omega)] at hperm
    exact List.perm_middle.symm.trans hperm
  · simp only [AllocT.pop]
    omega

/-- A push takes the page from those that are out, if it is there; else the page is one more. -/
theorem Accounted.push {start p : U64} {a : AllocT} {live stray : List U64}
    (h : Accounted start a live stray) (hn : a.next ≠ 0) :
    Accounted start (a.push p) (live.erase p) (strays 0 p live stray) := by
  have hle := h.next_le
  refine ⟨h.initialized, ?_, ?_, (last_push p hle).trans h.last⟩
  · rw [free_push p hn (by omega)]
    refine List.perm_middle.trans ?_
    by_cases hp : p ∈ live
    · rw [strays, if_neg (by simp [hp])]
      exact ((List.perm_cons_erase hp).symm.append_right a.free).trans h.perm
    · rw [strays, if_pos ⟨rfl, hp⟩, List.erase_of_not_mem hp]
      exact (h.perm.cons p).trans List.perm_middle.symm
  · simp only [AllocT.push]
    omega

theorem taken_pop {s s' : Kernel} {p : U64} (live : List U64) (h : s'.alloc = s.alloc.pop) :
    taken s s' p live = p :: live := by
  rw [taken, h]
  exact if_neg (Nat.succ_ne_self _)

theorem taken_same {s s' : Kernel} {p : U64} (live : List U64) (h : s'.alloc = s.alloc) :
    taken s s' p live = live := by
  rw [taken, h]
  exact if_pos rfl

theorem Accounted.get {start p : U64} {s s' : Kernel} {live stray : List U64}
    (h : Accounted start s.alloc live stray) (hg : allocGetPage s = .ok p s') :
    Accounted start s'.alloc (taken s s' p live) stray := by
  obtain ⟨hn, rfl, rfl⟩ | ⟨-, rfl, rfl⟩ := allocGetPage_cases h.initialized hg
  · rw [taken_pop live rfl]
    exact h.pop hn
  · have hsame : (s.refuse .allocExhausted .allocGetPage).alloc = s.alloc := rfl
    rw [taken_same live hsame]
    exact h

theorem Accounted.free {start p : U64} {s s' : Kernel} {live stray : List U64} {r : Int}
    (h : Accounted start s.alloc live stray) (hf : allocFreePage p s = .ok r s') :
    Accounted start s'.alloc (returned r p live) (strays r p live stray) := by
  obtain ⟨-, hn, rfl, rfl⟩ | ⟨rfl, hs⟩ := allocFreePage_cases h.initialized hf
  · exact h.push hn
  · rw [hs]
    exact h

/-- **Every run is accounted for.** -/
theorem AnyRun.accounted {mmu : Mmu} {start : U64} {s : Kernel} {live stray : List U64}
    (h : AnyRun mmu start s live stray) : Accounted start s.alloc live stray := by
  induction h with
  | @init s₀ s hinit =>
    have hlast := list_allocInit hinit (Nat.sub_lt (Nat.succ_pos _) Nat.one_pos)
    rw [run_allocInit (aligned_of_allocInit hinit)] at hinit
    injection hinit with _ hs
    subst hs
    have hc : Conserved start _ [] := Conserved.init s₀.alloc
    exact ⟨rfl, by rw [List.append_nil]; exact hc.perm, hc.next_le, hlast⟩
  | get _ hg ih => exact ih.get hg
  | zero _ hzero ih =>
    obtain ⟨s₁, hg, halloc⟩ := allocZeroPage_get hzero
    have hnext := ih.get hg
    rw [taken, ← halloc] at hnext
    exact hnext
  | free _ hf ih => exact ih.free hf

/-! ## 3. Allocating on -/

section Allocs

variable {start : U64} {s s' : Kernel} {live live' stray : List U64}

theorem Allocs.accounted (h : Allocs s live s' live') (hc : Accounted start s.alloc live stray) :
    Accounted start s'.alloc live' stray := by
  induction h with
  | done => exact hc
  | get _ hg ih => exact ih.get hg

/-- The pages can be taken one after another... -/
theorem Accounted.allocs (hc : Accounted start s.alloc live stray) {k : ℕ}
    (hk : s.alloc.next + k ≤ allocListSize - 1) :
    ∃ s' live', Allocs s live s' live' ∧ s'.alloc.next = s.alloc.next + k := by
  induction k with
  | zero => exact ⟨s, live, .done, rfl⟩
  | succ k ih =>
    obtain ⟨s₁, live₁, h₁, hnext⟩ := ih (by omega)
    have hget := run_allocGetPage (h₁.accounted hc).initialized (by rw [hnext]; omega)
    exact ⟨_, _, h₁.get hget, congrArg (· + 1) hnext⟩

/-- ...until the last one alone is left. -/
theorem free_of_last {a : AllocT} (h : a.next = allocListSize - 1) :
    a.free = [a.list (allocListSize - 1)] := by
  rw [AllocT.free, h]
  rfl

/-- Allocating on, the callers get every page but the last, and every stray. -/
theorem Accounted.drain (hc : Accounted start s.alloc live stray) :
    ∃ s' live', Allocs s live s' live' ∧
      (lastPage start :: live').Perm (initialList start ++ stray) := by
  have hle := hc.next_le
  obtain ⟨s', live', h, hnext⟩ := hc.allocs
    (k := allocListSize - 1 - s.alloc.next) (by omega)
  have hc' := h.accounted hc
  have hperm := hc'.perm
  rw [free_of_last (by omega), hc'.last] at hperm
  exact ⟨s', live', h, (List.perm_append_singleton _ _).symm.trans hperm⟩

/-- Without strays the pages out are distinct, and pages of the list in front of the last. -/
theorem Accounted.sound (hc : Accounted start s.alloc live []) :
    live.Nodup ∧ ∀ p ∈ live, p ∈ initialList start ∧ p ≠ lastPage start := by
  have hle := hc.next_le
  have hperm := hc.perm
  rw [List.append_nil] at hperm
  obtain ⟨hnodup, -, hapart⟩ := List.nodup_append.mp (hperm.nodup_iff.mpr nodup_initialList)
  have hlast : lastPage start ∈ s.alloc.free := by
    rw [← hc.last]
    exact last_mem_free hle
  refine ⟨hnodup, fun p hp => ⟨hperm.mem_iff.mp (List.mem_append_left _ hp), ?_⟩⟩
  rintro rfl
  exact hapart _ hp _ hlast rfl

end Allocs

/-! ## 4. Strays -/

/-- **One stray is enough, and nothing else is.**  After any calls whatsoever, the pages that are
out, and those that any further calls of `alloc_get_page` add to them, are distinct pages of the
initial list and not its last one, just if no stray has been accepted. -/
theorem alloc_sound_iff {mmu : Mmu} {start : U64} {s : Kernel} {live stray : List U64}
    (h : AnyRun mmu start s live stray) :
    (∀ s' live', Allocs s live s' live' →
      live'.Nodup ∧ ∀ p ∈ live', p ∈ initialList start ∧ p ≠ lastPage start) ↔ stray = [] := by
  have hc := h.accounted
  constructor
  · intro hsound
    obtain ⟨s', live', hrun, hperm⟩ := hc.drain
    obtain ⟨hnodup, hmem⟩ := hsound s' live' hrun
    -- the last page and the others, distinct as they are, leave no room for a stray
    have hdistinct : (lastPage start :: live').Nodup :=
      List.nodup_cons.mpr ⟨fun hl => (hmem _ hl).2 rfl, hnodup⟩
    obtain ⟨-, -, hapart⟩ := List.nodup_append.mp (hperm.nodup_iff.mp hdistinct)
    refine List.eq_nil_iff_forall_not_mem.mpr fun q hq => ?_
    have hq' : q ∈ lastPage start :: live' :=
      hperm.mem_iff.mpr (List.mem_append_right _ hq)
    have hlist : q ∈ initialList start := by
      rcases List.mem_cons.mp hq' with rfl | hlive
      · exact mem_initialList (Nat.sub_lt (Nat.succ_pos _) Nat.one_pos)
      · exact (hmem q hlive).1
    exact hapart q hlist q hq rfl
  · rintro rfl s' live' hrun
    exact (hrun.accounted hc).sound

/-- A page taken and freed twice: the second time, one more page is out and the free succeeds. -/
theorem alloc_sound_iff_twice :
    ∃ s live, AnyRun physical 0x80200000 s live [0x80201000] ∧
      ¬ ∀ s' live', Allocs s live s' live' → live'.Nodup ∧
        ∀ p ∈ live', p ∈ initialList 0x80200000 ∧ p ≠ lastPage 0x80200000 := by
  have hrun : ∃ s live, AnyRun physical 0x80200000 s live [0x80201000] := by
    have ha : Aligned 0x80201000 := by decide
    have h₀ : AnyRun physical 0x80200000 _ [] [] :=
      .init (run_allocInit (s := Kernel.boot fun _ => 0) (by decide))
    have h₁ := h₀.get (run_allocGetPage rfl (by decide))
    have h₂ := h₁.get (run_allocGetPage rfl (by decide))
    have h₃ := h₂.free (run_allocFreePage rfl ha (by decide))
    have h₄ := h₃.free (run_allocFreePage rfl ha (by decide))
    exact ⟨_, _, h₄⟩
  obtain ⟨s, live, h⟩ := hrun
  exact ⟨s, live, h, fun hsound => absurd ((alloc_sound_iff h).mp hsound) (by decide)⟩

end RvKernel.Mm
