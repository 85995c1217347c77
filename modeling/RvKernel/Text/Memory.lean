/-
# Blocks of memory (`string.c`)

`memset`, `memset64` and `memcpy` over a memory of bytes, with addresses that wrap at `2 ^ 64`.

* `memcpy` goes from the low end up, so where the destination begins inside the source it reads what
  it has written: the first bytes, as many as the destination is ahead, are repeated
  (`memcpy_periodic`).  It copies just if there are none to repeat (`memcpy_copies_iff`).
* `memset` of a number of words is `memset64` of the byte in all places, and what the page tables
  see of it is the word-wise `memset` of their model (`memset_refines`).
-/
import RvKernel.Lib.Rv64
import RvKernel.Mm.State

namespace RvKernel.Memory

open Rv64

/-! ## 1. The code -/

/-- The loop of `memset`. -/
def memsetLoop (val : U8) : ℕ → U64 → Mem → Mem
  | 0, _, m => m
  | count + 1, ptr, m => memsetLoop val count (ptr + 1) (Function.update m ptr val)

/-- `memset(dest, val, count)`. -/
def memset (dest : U64) (val : U32) (count : U64) (m : Mem) : Mem :=
  memsetLoop (val.setWidth 8) count.toNat dest m

/-- The loop of `memset64`. -/
def memset64Loop (val : U64) : ℕ → U64 → Mem → Mem
  | 0, _, m => m
  | count + 1, dest, m => memset64Loop val count (dest + 8) (store m dest val)

/-- `memset64(dest, val, count)`. -/
def memset64 (dest val count : U64) (m : Mem) : Mem := memset64Loop val count.toNat dest m

/-- The loop of `memcpy`. -/
def memcpyLoop : ℕ → U64 → U64 → Mem → Mem
  | 0, _, _, m => m
  | count + 1, ptr, src, m =>
    memcpyLoop count (ptr + 1) (src + 1) (Function.update m ptr (m src))

/-- `memcpy(dest, src, count)`: what it returns, and the memory it leaves. -/
def memcpy (dest src count : U64) (m : Mem) : U64 × Mem :=
  (dest, memcpyLoop count.toNat dest src m)

/-! ## 2. Offsets -/

/-- An address is a base and an offset from it. -/
theorem add_offset (b x : U64) : b + BitVec.ofNat 64 (x - b).toNat = x := by
  rw [BitVec.ofNat_toNat, BitVec.setWidth_eq, add_comm]
  exact sub_add_cancel x b

theorem toNat_offset (b : U64) {i : ℕ} (hi : i < 2 ^ 64) :
    (b + BitVec.ofNat 64 i - b).toNat = i := by
  rw [add_sub_cancel_left, BitVec.toNat_ofNat, Nat.mod_eq_of_lt hi]

theorem offset_eq_zero {b x : U64} : (x - b).toNat = 0 ↔ x = b := by
  constructor
  · intro h
    have hx := add_offset b x
    rw [h] at hx
    rw [← hx]
    exact add_zero b
  · rintro rfl
    rw [sub_self]
    rfl

/-- The offset from `k` bytes on. -/
theorem offset_add {b x : U64} {k : ℕ} (hk : k < 2 ^ 64) :
    (x - (b + BitVec.ofNat 64 k)).toNat
      = if k ≤ (x - b).toNat then (x - b).toNat - k else 2 ^ 64 - k + (x - b).toNat := by
  have hlt := (x - b).isLt
  have hsub : x - (b + BitVec.ofNat 64 k) = (x - b) - BitVec.ofNat 64 k := by abel
  rw [hsub, BitVec.toNat_sub, BitVec.toNat_ofNat, Nat.mod_eq_of_lt hk]
  split
  · omega
  · omega

/-! ## 3. `memcpy` -/

/-- Where the byte at the offset `j` comes from, in a copy that is `d` ahead of its source. -/
def origin (d j : ℕ) : ℕ := if d = 0 then j else j % d

theorem succ_offset (b : U64) (n : ℕ) :
    b + 1 + BitVec.ofNat 64 n = b + BitVec.ofNat 64 (n + 1) := by
  rw [BitVec.ofNat_add, BitVec.add_assoc, BitVec.add_comm 1]
  rfl

/-- The last byte of a copy is read from what the bytes before it have left. -/
theorem memcpyLoop_succ (n : ℕ) (dest src : U64) (m : Mem) :
    memcpyLoop (n + 1) dest src m
      = Function.update (memcpyLoop n dest src m) (dest + BitVec.ofNat 64 n)
          (memcpyLoop n dest src m (src + BitVec.ofNat 64 n)) := by
  induction n generalizing dest src m with
  | zero =>
    change Function.update m dest (m src) = Function.update m (dest + 0#64) (m (src + 0#64))
    rw [BitVec.add_zero, BitVec.add_zero]
  | succ n ih =>
    rw [memcpyLoop, ih, succ_offset, succ_offset]
    rfl

/-- **What a copy leaves.** -/
theorem memcpyLoop_apply {n : ℕ} (hn : n ≤ 2 ^ 64) (dest src : U64) (m : Mem) (x : U64) :
    memcpyLoop n dest src m x
      = if (x - dest).toNat < n
        then m (src + BitVec.ofNat 64 (origin (dest - src).toNat (x - dest).toNat))
        else m x := by
  induction n generalizing x with
  | zero => rfl
  | succ n ih =>
    have hlt : n < 2 ^ 64 := by omega
    rw [memcpyLoop_succ, Function.update_apply]
    by_cases hx : x = dest + BitVec.ofNat 64 n
    · -- the byte written last: where it is read, an earlier one may have been written
      have hd := (dest - src).isLt
      have hread : (src + BitVec.ofNat 64 n - dest).toNat
          = if (dest - src).toNat ≤ n then n - (dest - src).toNat
            else 2 ^ 64 - (dest - src).toNat + n := by
        have h := offset_add (b := src) (x := src + BitVec.ofNat 64 n) hd
        rwa [add_offset, toNat_offset src hlt] at h
      rw [if_pos hx, ih (by omega), hx, toNat_offset dest hlt, if_pos (Nat.lt_succ_self n), hread]
      unfold origin
      by_cases h0 : (dest - src).toNat = 0
      · rw [if_neg (by split <;> omega), if_pos h0]
      · by_cases hle : (dest - src).toNat ≤ n
        · rw [if_pos hle, if_pos (by omega), if_neg h0, if_neg h0, ← Nat.mod_eq_sub_mod hle]
        · rw [if_neg hle, if_neg (by omega), if_neg h0, Nat.mod_eq_of_lt (by omega)]
    · -- any other byte: the offset is not the last one's
      have hne : (x - dest).toNat ≠ n := by
        rintro rfl
        exact hx (add_offset dest x).symm
      rw [if_neg hx, ih (by omega)]
      by_cases hi : (x - dest).toNat < n
      · rw [if_pos hi, if_pos (by omega)]
      · rw [if_neg hi, if_neg (by omega)]

/-- **`memcpy`, byte for byte.**  It returns its destination and writes nothing else; and where the
destination is ahead of the source, the bytes it is ahead by are repeated all over it. -/
theorem memcpy_periodic (dest src count : U64) (m : Mem) :
    (memcpy dest src count m).1 = dest ∧
    ∀ x, (memcpy dest src count m).2 x
      = if (x - dest).toNat < count.toNat
        then m (src + BitVec.ofNat 64 (origin (dest - src).toNat (x - dest).toNat))
        else m x :=
  ⟨rfl, memcpyLoop_apply count.isLt.le dest src m⟩

/-- `memcpy` has copied the source as it was. -/
def Copies (dest src count : U64) (m : Mem) : Prop :=
  ∀ i < count.toNat, (memcpy dest src count m).2 (dest + BitVec.ofNat 64 i)
    = m (src + BitVec.ofNat 64 i)

/-- **`memcpy` is a copy of any memory just if its destination does not begin inside the source**,
or is the source; that the source begins inside the destination does no harm. -/
theorem memcpy_copies_iff (dest src count : U64) :
    (∀ m, Copies dest src count m) ↔ dest = src ∨ count.toNat ≤ (dest - src).toNat := by
  have happly : ∀ m, ∀ i < count.toNat, (memcpy dest src count m).2 (dest + BitVec.ofNat 64 i)
      = m (src + BitVec.ofNat 64 (origin (dest - src).toNat i)) := by
    intro m i hi
    have hlt := count.isLt
    have h := memcpyLoop_apply hlt.le dest src m (dest + BitVec.ofNat 64 i)
    rwa [toNat_offset dest (by omega), if_pos hi] at h
  constructor
  · intro hcopy
    by_contra! hover
    obtain ⟨hne, hlt⟩ := hover
    have hpos := mt offset_eq_zero.mp hne
    -- a memory that tells the first byte of the source from the first of the destination
    have h := hcopy (Function.update (fun _ => 0) src 1) _ hlt
    have horigin : origin (dest - src).toNat (dest - src).toNat = 0 := by
      rw [origin, if_neg hpos, Nat.mod_self]
    rw [happly _ _ hlt, add_offset, horigin, Function.update_of_ne hne] at h
    have hsrc : src + BitVec.ofNat 64 0 = src := BitVec.add_zero src
    rw [hsrc, Function.update_self] at h
    exact absurd h (by decide)
  · intro hapart m i hi
    rw [happly m i hi]
    unfold origin
    rcases hapart with heq | hle
    · rw [if_pos (offset_eq_zero.mpr heq)]
    · rw [if_neg (by omega), Nat.mod_eq_of_lt (by omega)]

/-! ## 4. `memset` -/

theorem memsetLoop_append (val : U8) (n k : ℕ) (dest : U64) (m : Mem) :
    memsetLoop val (n + k) dest m
      = memsetLoop val k (dest + BitVec.ofNat 64 n) (memsetLoop val n dest m) := by
  induction n generalizing dest m with
  | zero =>
    rw [Nat.zero_add]
    change _ = memsetLoop val k (dest + 0#64) m
    rw [BitVec.add_zero]
  | succ n ih => rw [Nat.succ_add, memsetLoop, ih, succ_offset, memsetLoop]

theorem memsetLoop_apply {n : ℕ} (hn : n ≤ 2 ^ 64) (val : U8) (dest : U64) (m : Mem) (x : U64) :
    memsetLoop val n dest m x = if (x - dest).toNat < n then val else m x := by
  induction n with
  | zero => rfl
  | succ n ih =>
    rw [memsetLoop_append, memsetLoop, memsetLoop, Function.update_apply, ih (by omega)]
    by_cases hx : x = dest + BitVec.ofNat 64 n
    · rw [if_pos hx, if_pos]
      rw [hx, toNat_offset dest (by omega)]
      exact Nat.lt_succ_self n
    · have hne : (x - dest).toNat ≠ n := by
        rintro rfl
        exact hx (add_offset dest x).symm
      rw [if_neg hx]
      by_cases hi : (x - dest).toNat < n
      · rw [if_pos hi, if_pos (by omega)]
      · rw [if_neg hi, if_neg (by omega)]

theorem fillWord_eq_joinBytes : ∀ val : U8, Mm.fillWord val = joinBytes fun _ => val := by
  decide +kernel

theorem byteOf_fillWord (val : U8) {i : ℕ} (hi : i < 8) : byteOf (Mm.fillWord val) i = val := by
  apply BitVec.eq_of_getLsbD_eq
  intro j hj
  rw [getLsbD_byteOf _ _ hj, fillWord_eq_joinBytes, getLsbD_joinBytes _ hi hj]

/-- Eight bytes of `memset` are one word of `memset64`. -/
theorem memsetLoop_word (val : U8) (dest : U64) (m : Mem) :
    memsetLoop val 8 dest m = store m dest (Mm.fillWord val) := by
  funext x
  rw [memsetLoop_apply (by decide), store]
  split
  · rename_i hx
    rw [byteOf_fillWord val hx]
  · rfl

theorem memsetLoop_words (val : U8) (words : ℕ) (dest : U64) (m : Mem) :
    memsetLoop val (8 * words) dest m = memset64Loop (Mm.fillWord val) words dest m := by
  induction words generalizing dest m with
  | zero => rfl
  | succ words ih =>
    rw [Nat.mul_succ, Nat.add_comm, memsetLoop_append, memsetLoop_word, ih]
    rfl

/-- The memory of words that the page tables are kept in, as the aligned words of one of bytes. -/
def Represents (b : Mem) (w : Sv39.Mem) : Prop := ∀ a : U64, 8 ∣ a.toNat → load b a = w a

theorem Represents.store {b : Mem} {w : Sv39.Mem} (h : Represents b w) {a : U64} (ha : 8 ∣ a.toNat)
    (v : U64) : Represents (store b a v) (Function.update w a v) := by
  intro x hx
  by_cases hxa : x = a
  · rw [hxa, load_store_same, Function.update_self]
  · rw [Function.update_of_ne hxa, ← h x hx]
    apply joinBytes_congr
    intro i hi
    apply store_outside
    -- two aligned words that are not the same are eight bytes apart
    have hne : x.toNat ≠ a.toNat := mt BitVec.eq_of_toNat_eq hxa
    have hsub : x + BitVec.ofNat 64 i - a = (x - a) + BitVec.ofNat 64 i := by abel
    rw [hsub, BitVec.toNat_add, BitVec.toNat_sub, BitVec.toNat_ofNat]
    have := x.isLt
    have := a.isLt
    omega

theorem run_memset_represents (val : U8) (words : ℕ) {dest : U64} (hdest : 8 ∣ dest.toNat) {b : Mem}
    {s : Mm.Kernel} (h : Represents b s.mem) : ∃ s',
      Mm.memset Mm.physical dest val words s = .ok () s' ∧
      Represents (memset64Loop (Mm.fillWord val) words dest b) s'.mem := by
  induction words generalizing dest b s with
  | zero => exact ⟨s, rfl, h⟩
  | succ words ih =>
    have hnext : 8 ∣ (dest + 8).toNat := by
      rw [BitVec.toNat_add]
      change 8 ∣ (dest.toNat + 8) % 2 ^ 64
      omega
    obtain ⟨s', hrun, hmem⟩ := ih hnext (s := s.write dest (Mm.fillWord val))
      (h.store hdest (Mm.fillWord val))
    exact ⟨s', hrun, hmem⟩

/-- **The `memset` of the page tables' model is the byte loop.**  Over a memory of bytes whose
aligned words are the words of the model, the byte loop run over whole words leaves the memory
whose aligned words are those the model's `memset` leaves; and it is the same as `memset64` of the
word that repeats the byte.  Every other byte is left as it was. -/
theorem memset_refines {b : Mem} {s : Mm.Kernel} (h : Represents b s.mem) (dest : U64)
    (hdest : 8 ∣ dest.toNat) (val : U32) (words : ℕ) (hwords : 8 * words < 2 ^ 64) :
    (∃ s', Mm.memset Mm.physical dest (val.setWidth 8) words s = .ok () s' ∧
      Represents (memset dest val (BitVec.ofNat 64 (8 * words)) b) s'.mem) ∧
    memset dest val (BitVec.ofNat 64 (8 * words)) b
      = memset64 dest (Mm.fillWord (val.setWidth 8)) (BitVec.ofNat 64 words) b ∧
    ∀ x, 8 * words ≤ (x - dest).toNat →
      memset dest val (BitVec.ofNat 64 (8 * words)) b x = b x := by
  have hcount : (BitVec.ofNat 64 (8 * words)).toNat = 8 * words := by
    rw [BitVec.toNat_ofNat, Nat.mod_eq_of_lt hwords]
  have hcount64 : (BitVec.ofNat 64 words).toNat = words := by
    rw [BitVec.toNat_ofNat, Nat.mod_eq_of_lt (by omega)]
  unfold memset memset64
  rw [hcount, hcount64]
  refine ⟨?_, memsetLoop_words _ _ _ _, ?_⟩
  · rw [memsetLoop_words]
    exact run_memset_represents _ _ hdest h
  · intro x hx
    rw [memsetLoop_apply hwords.le, if_neg (by omega)]

/-- The page that is cleared when a table is made. -/
theorem memset_refines_page : ∃ s',
    Mm.memset Mm.physical 0x80010000 0 512 (Mm.Kernel.boot fun _ => Mm.fillWord 7) = .ok () s' ∧
    Represents (memset 0x80010000 0 4096 fun _ => 7) s'.mem :=
  (memset_refines (b := fun _ => 7) (s := Mm.Kernel.boot fun _ => Mm.fillWord 7)
    (fun _ _ => (fillWord_eq_joinBytes 7).symm) 0x80010000 (by decide) 0 512 (by decide)).1

end RvKernel.Memory
