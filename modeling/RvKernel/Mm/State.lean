/-
# The memory-management state of the kernel

The globals that `alloc.c`, `mm.c` and `panic.c` read and write, gathered in one record, and the
primitive effects their functions are made of: a 64-bit load or store through a pointer, a
`critical` message, and `BUG()`.

The globals (the allocator's free list, `kernel_root_ptb`, `kmap`, `bug_behavior`) are fields of
their own and not words of `mem`: `mem` is the physical memory behind the pages the allocator
hands out.  How a POINTER reaches physical memory is a parameter, `Mmu`, because the same code runs
in two regimes: before the kernel's own tables are installed a table is dereferenced at its
physical address (`physical`), afterwards through the tables themselves.

A call either returns (`.ok`), or stops: a panic spins forever, a page fault does not return to
the faulting code, and `fuel` marks a loop cut off by the model.  `events` records every store and
every message, in order; nothing in the kernel reads it.
-/
import RvKernel.Lib.Effect
import RvKernel.Lib.PageTree

namespace RvKernel.Mm

open Sv39

/-! ## 1. The state -/

/-- `enum bug_behavior` (`panic.h`). -/
inductive BugBehavior where
  | bugPanic
  | bugLog
  deriving DecidableEq

/-- The functions `BUG()` names in its message. -/
inductive Func where
  | allocInit
  | allocGetPage
  | allocFreePage
  | vmMapPage
  deriving DecidableEq

/-- The `critical` messages, with their arguments. -/
inductive Msg where
  /-- "alloc: tried to init allocator with available memory starting at misaligned address" -/
  | allocInitMisaligned (start : U64)
  /-- "alloc: tried to alloc pages before initializing the allocator!" -/
  | allocUninitialized
  /-- "alloc: no more free pages to allocate." -/
  | allocExhausted
  /-- "alloc: tried to free pages before initializing the allocator!" -/
  | freeUninitialized
  /-- "alloc: tried to free page at misaligned physical address!" -/
  | freeMisaligned
  /-- "alloc: tried to free page when no pages have been allocated!" -/
  | freeNothing
  /-- "vm_map_page: attempted to map misaligned address" -/
  | mapMisaligned (va pa : U64)
  /-- "vm_map_page: attempted to map non-canonical virtual address" -/
  | mapNonCanonical
  /-- "vm_map_page: attempted to remap VA" -/
  | mapRemap (va pte : U64)
  /-- "BUG() in function" -/
  | bug (func : Func)
  deriving DecidableEq

/-- What a call does to the outside world, in order. -/
inductive Event where
  /-- The 64-bit word at a physical address was written. -/
  | store (addr val : U64)
  /-- `alloc_zero_page` zeroed this page and handed it out. -/
  | zeroPage (page : U64)
  | critical (msg : Msg)
  deriving DecidableEq

/-- `struct alloc_t`: the entries of `list` from `next` on are the free pages. -/
structure AllocT where
  list : ℕ → U64
  next : ℕ
  initialized : Bool

/-- `struct memory_map_t`: the virtual addresses the linker gave to the kernel's sections. -/
structure MemoryMap where
  physOffset : U64
  kernelStart : U64
  kernelEnd : U64
  kernelSize : U64
  textStart : U64
  textEnd : U64
  bssStart : U64
  bssEnd : U64
  rodataStart : U64
  rodataEnd : U64
  dataStart : U64
  dataEnd : U64

structure Kernel where
  mem : Mem
  alloc : AllocT
  kernelRootPtb : U64
  kmap : MemoryMap
  bugBehavior : BugBehavior
  events : List Event

/-- The globals as the cleared `.bss` leaves them, over a given physical memory. -/
def Kernel.boot (mem : Mem) : Kernel where
  mem := mem
  alloc := { list := fun _ => 0, next := 0, initialized := false }
  kernelRootPtb := 0
  kmap := ⟨0, 0, 0, 0, 0, 0, 0, 0, 0, 0, 0, 0⟩
  bugBehavior := .bugPanic
  events := []

/-! ## 2. Effects -/

/-- Why a call does not return. -/
inductive Stop where
  | panic
  | fault (ptr : U64)
  | fuel
  deriving DecidableEq

abbrev KM := EStateM Stop Kernel

/-- How a pointer reaches physical memory; `none` is a page fault. -/
abbrev Mmu := Mem → U64 → Option U64

/-- The early-boot regime: a table is dereferenced at its physical address. -/
def physical : Mmu := fun _ p => some p

def emit (e : Event) : KM Unit :=
  modify fun s => { s with events := s.events ++ [e] }

def critical (msg : Msg) : KM Unit := emit (.critical msg)

/-- The macro `BUG()`. -/
def BUG (func : Func) : KM Unit := do
  if (← get).bugBehavior = .bugPanic then throw .panic else critical (.bug func)

/-- `*ptr` of a `u64 *`. -/
def load (mmu : Mmu) (ptr : U64) : KM U64 := do
  let s ← get
  match mmu s.mem ptr with
  | some a => return s.mem a
  | none => throw (.fault ptr)

/-- The state after the word at a physical address was written. -/
def Kernel.write (s : Kernel) (addr val : U64) : Kernel :=
  { s with mem := Function.update s.mem addr val, events := s.events ++ [.store addr val] }

/-- `*ptr = val` of a `u64 *`. -/
def store (mmu : Mmu) (ptr val : U64) : KM Unit := do
  let s ← get
  match mmu s.mem ptr with
  | some a => modify fun s => s.write a val
  | none => throw (.fault ptr)

/-- Eight copies of a byte. -/
def fillWord (val : U8) : U64 := BitVec.ofNat 64 (val.toNat * 0x0101010101010101)

/-- `memset(dest, val, 8 * words)` of `string.c`.  The destination is always a page, so the byte
loop fills naturally aligned words. -/
def memset (mmu : Mmu) (dest : U64) (val : U8) : ℕ → KM Unit
  | 0 => return ()
  | words + 1 => do
    store mmu dest (fillWord val)
    memset mmu (dest + 8) val words

@[simp] theorem run_emit (e : Event) (s : Kernel) :
    emit e s = .ok () { s with events := s.events ++ [e] } := rfl

@[simp] theorem run_critical (msg : Msg) (s : Kernel) :
    critical msg s = .ok () { s with events := s.events ++ [.critical msg] } := rfl

theorem run_BUG_log {s : Kernel} (h : s.bugBehavior = .bugLog) (func : Func) :
    BUG func s = .ok () { s with events := s.events ++ [.critical (.bug func)] } := by
  simp [BUG, h]

theorem run_BUG_panic {s : Kernel} (h : s.bugBehavior = .bugPanic) (func : Func) :
    BUG func s = .error .panic s := by
  simp [BUG, h]

section Access

variable {mmu : Mmu} {ptr a : U64} {s : Kernel}

theorem run_load (h : mmu s.mem ptr = some a) : load mmu ptr s = .ok (s.mem a) s := by
  simp only [load, Effect.run_bind, Effect.run_get, h, Effect.run_pure]

theorem run_load_fault (h : mmu s.mem ptr = none) : load mmu ptr s = .error (.fault ptr) s := by
  simp only [load, Effect.run_bind, Effect.run_get, h, Effect.run_throw]

theorem run_store (h : mmu s.mem ptr = some a) (val : U64) :
    store mmu ptr val s = .ok () (s.write a val) := by
  simp only [store, Effect.run_bind, Effect.run_get, h, Effect.run_modify]

end Access

@[simp] theorem run_load_physical (ptr : U64) (s : Kernel) :
    load physical ptr s = .ok (s.mem ptr) s := rfl

@[simp] theorem run_store_physical (ptr val : U64) (s : Kernel) :
    store physical ptr val s = .ok () (s.write ptr val) := rfl

/-- Where no access faults, `memset` returns, and it changes nothing but memory. -/
theorem run_memset {mmu : Mmu} (hmmu : ∀ m p, (mmu m p).isSome) (val : U8) :
    ∀ (words : ℕ) (dest : U64) (s : Kernel), ∃ mem' es,
      memset mmu dest val words s = .ok () { s with mem := mem', events := s.events ++ es }
  | 0, _, s => ⟨s.mem, [], by simp [memset]⟩
  | words + 1, dest, s => by
    obtain ⟨a, ha⟩ := Option.isSome_iff_exists.mp (hmmu s.mem dest)
    obtain ⟨mem', es, h⟩ := run_memset hmmu val words (dest + 8) (s.write a (fillWord val))
    refine ⟨mem', .store a (fillWord val) :: es, ?_⟩
    rw [memset, Effect.run_bind, run_store ha]
    simp only []
    rw [h]
    simp only [Kernel.write, List.append_assoc, List.singleton_append]

/-- If `memset` returns, it has not touched the allocator. -/
theorem alloc_memset {mmu : Mmu} {val : U8} {words : ℕ} {dest : U64} {s s' : Kernel}
    (h : memset mmu dest val words s = .ok () s') : s'.alloc = s.alloc := by
  induction words generalizing dest s with
  | zero =>
    cases h
    rfl
  | succ words ih =>
    obtain ⟨_, s₁, hstore, hrest⟩ := Effect.bind_eq_ok.mp h
    have hkeep : s₁.alloc = s.alloc := by
      cases ha : mmu s.mem dest with
      | some a =>
        rw [run_store ha] at hstore
        cases hstore
        rfl
      | none =>
        simp only [store, Effect.run_bind, Effect.run_get, ha, Effect.run_throw] at hstore
        cases hstore
    exact (ih hrest).trans hkeep

/-! ## 3. The log -/

/-- The state a call leaves behind, whether it returned or stopped. -/
def final {α : Type} : EStateM.Result Stop Kernel α → Kernel
  | .ok _ s => s
  | .error _ s => s

/-- A computation that only ever appends to the log, and logs every word it changes. -/
structure Logs {α : Type} (x : KM α) : Prop where
  le : ∀ s, s.events <+: (final (x s)).events
  change : ∀ s a, (final (x s)).mem a ≠ s.mem a → ∃ v, .store a v ∈ (final (x s)).events

section Logs

variable {α β : Type}

/-- A step that leaves memory alone. -/
theorem Logs.of_mem_eq {x : KM α} (h : ∀ s, s.events <+: (final (x s)).events)
    (hmem : ∀ s, (final (x s)).mem = s.mem) : Logs x :=
  ⟨h, fun s a hne => absurd (congrFun (hmem s) a) hne⟩

theorem Logs.pure (r : α) : Logs (Pure.pure r : KM α) :=
  Logs.of_mem_eq (fun _ => List.prefix_rfl) fun _ => rfl

theorem Logs.get : Logs (MonadState.get : KM Kernel) :=
  Logs.of_mem_eq (fun _ => List.prefix_rfl) fun _ => rfl

theorem Logs.throw (e : Stop) : Logs (MonadExcept.throw e : KM α) :=
  Logs.of_mem_eq (fun _ => List.prefix_rfl) fun _ => rfl

theorem Logs.of_modify {f : Kernel → Kernel} (h : ∀ s, s.events <+: (f s).events)
    (hmem : ∀ s, (f s).mem = s.mem) : Logs (modify f : KM Unit) := Logs.of_mem_eq h hmem

theorem Logs.emit (e : Event) : Logs (Mm.emit e) :=
  Logs.of_mem_eq (fun _ => List.prefix_append _ _) fun _ => rfl

theorem Logs.ite {p : Prop} [Decidable p] {x y : KM α} (hx : Logs x) (hy : Logs y) :
    Logs (if p then x else y) := by
  split
  · exact hx
  · exact hy

/-- What a computation logs is still in the log of what follows. -/
theorem mem_events_bind {x : KM α} {f : α → KM β} (hf : ∀ a, Logs (f a)) {s : Kernel} {e : Event}
    (h : e ∈ (final (x s)).events) : e ∈ (final ((x >>= f) s)).events := by
  rw [Effect.run_bind]
  cases hr : x s with
  | ok a s' =>
    rw [hr] at h
    exact ((hf a).le s').subset h
  | error err s' =>
    rw [hr] at h
    exact h

theorem Logs.bind {x : KM α} {f : α → KM β} (hx : Logs x) (hf : ∀ a, Logs (f a)) :
    Logs (x >>= f) := by
  constructor
  · intro s
    have h := hx.le s
    rw [Effect.run_bind]
    cases hr : x s with
    | ok a s' =>
      rw [hr] at h
      exact h.trans ((hf a).le s')
    | error e s' =>
      rw [hr] at h
      exact h
  · intro s a hne
    by_cases hchange : (final (x s)).mem a = s.mem a
    · -- the second half made the change
      rw [Effect.run_bind] at hne ⊢
      cases hr : x s with
      | ok r s' =>
        simp only [hr, final] at hchange hne ⊢
        rw [← hchange] at hne
        exact (hf r).change s' a hne
      | error e s' =>
        simp only [hr, final] at hchange hne
        exact absurd hchange hne
    · obtain ⟨v, hv⟩ := hx.change s a hchange
      exact ⟨v, mem_events_bind hf hv⟩

theorem Logs.BUG (func : Func) : Logs (Mm.BUG func) :=
  Logs.get.bind fun _ => (Logs.throw _).ite (Logs.emit _)

theorem Logs.load (mmu : Mmu) (ptr : U64) : Logs (Mm.load mmu ptr) := by
  refine Logs.get.bind fun s => ?_
  split
  · exact Logs.pure _
  · exact Logs.throw _

theorem Logs.store (mmu : Mmu) (ptr val : U64) : Logs (Mm.store mmu ptr val) := by
  refine Logs.get.bind fun s => ?_
  split
  · refine ⟨fun s => List.prefix_append _ _, fun s a hne => ?_⟩
    rename_i b _
    by_cases hab : a = b
    · refine ⟨val, ?_⟩
      rw [Effect.run_modify, hab]
      exact List.mem_append_right _ List.mem_cons_self
    · exact absurd (Function.update_of_ne hab _ _) hne
  · exact Logs.throw _

theorem Logs.memset (mmu : Mmu) (val : U8) : ∀ (words : ℕ) (dest : U64),
    Logs (Mm.memset mmu dest val words)
  | 0, _ => Logs.pure _
  | words + 1, dest => (Logs.store mmu dest _).bind fun _ => Logs.memset mmu val words (dest + 8)

end Logs

end RvKernel.Mm
