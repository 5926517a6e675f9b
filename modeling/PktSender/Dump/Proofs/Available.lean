/-
The indices `__init_trace_tbl` makes available.

The ring it creates has room for `n` four-byte integers, and a ring never
fills up its last byte. So all `n` fit only when `ringbuffer_create` rounds
the size up, which is when `n` is no power of two; otherwise the last put is
refused, and nobody looks. `cuckoohash_create` asks for one integer more
than it puts.
-/
import PktSender.Dump.Basic
import PktSender.Ring.Proofs.Items
import Mathlib.Algebra.Group.Nat.Defs

namespace PktSender.Dump

open LittleEndian PktSender.Ring

/-- The numbers 0 to `n - 1`. -/
def indices (n : Nat) : List UInt32 := (List.range n).map UInt32.ofNat

@[simp] theorem length_indices (n : Nat) : (indices n).length = n := by
  rw [indices, List.length_map, List.length_range]

/-- What successive gets of four bytes return. -/
def getIndices : Nat → Ringbuffer → List (UInt32 × List UInt8)
  | 0, _ => []
  | n + 1, r =>
      let (r, len, bytes) := ringbufferGet r 4
      (len, bytes) :: getIndices n r

/-- The ring holds all `n` indices in order, and `n` gets return them. -/
def AllAvailable (r : Ringbuffer) (n : Nat) : Prop :=
  HoldsItems r (indices n)
    ∧ getIndices n r = (indices n).map fun x => (4, itemBytes x)

/-- Gets return what the ring holds. -/
theorem getIndices_items {r : Ringbuffer} {items : List UInt32}
    (h : HoldsItems r items) :
    getIndices items.length r = items.map fun x => (4, itemBytes x) := by
  induction items generalizing r with
  | nil => rfl
  | cons x items ih =>
      obtain ⟨r', hget, hr', -⟩ := get_item_cons h
      rw [List.length_cons, getIndices, hget, List.map_cons]
      exact congrArg (_ :: ·) (ih hr')

/-- A ring that lacks the last ones does not hold all. -/
theorem not_allAvailable {r : Ringbuffer} {n m : Nat}
    (h : HoldsItems r ((indices n).take m)) (hm : m < n) : ¬ AllAvailable r n := by
  intro hall
  have hsame := congrArg List.length (h.contents_eq.symm.trans hall.1.contents_eq)
  rw [length_flatMap_itemBytes, length_flatMap_itemBytes, List.length_take,
    length_indices] at hsame
  omega

section Populate

variable {env : CreateEnv} {r : Ringbuffer} {n : Nat}

/-- The data area has room for the least power of two of indices from `n`
on. -/
theorem createSize_indices (hn : 1 ≤ n) (hle : 4 * n ≤ 2 ^ 31) :
    ∃ k, (createSize (4 * UInt32.ofNat n)).toNat = 4 * 2 ^ k ∧ n ≤ 2 ^ k
      ∧ ((∃ j, n = 2 ^ j) → n = 2 ^ k) := by
  have hsize : (4 * UInt32.ofNat n).toNat = 4 * n := by
    rw [UInt32.toNat_mul, UInt32.toNat_ofNat', show (4 : UInt32).toNat = 4 from rfl,
      Nat.mod_eq_of_lt (a := n) (by omega), Nat.mod_eq_of_lt (by omega)]
  -- a power of two from 4 on is four times another
  have hquarter : ∀ k, 4 ≤ 2 ^ k → (2 : Nat) ^ k = 4 * 2 ^ (k - 2) := by
    intro k hk
    have hk2 : 2 ≤ k := by
      by_contra hlt
      have : 2 ^ k ≤ 2 ^ 1 := Nat.pow_le_pow_right (by decide) (by omega)
      omega
    rw [show (4 : Nat) = 2 ^ 2 from rfl, ← pow_add, Nat.add_sub_cancel' hk2]
  unfold createSize
  split
  next hp =>
    obtain ⟨⟨k, hk⟩, hge, -⟩ :=
      roundup2_spec (n := 4 * UInt32.ofNat n) (by omega) (by omega)
    rw [hsize, hk] at hge
    have hfour := hquarter k (by omega)
    refine ⟨k - 2, hk.trans hfour, by omega, ?_⟩
    intro hex
    obtain ⟨j, rfl⟩ := hex
    have hpow : isPowerOf2 (4 * UInt32.ofNat (2 ^ j)) = true :=
      isPowerOf2_iff.mpr ⟨j + 2, by rw [hsize, pow_add]; omega⟩
    rw [hpow] at hp
    cases hp
  next hp =>
    obtain ⟨k, hk⟩ := isPowerOf2_iff.mp (by simpa using hp)
    rw [hsize] at hk
    have hfour := hquarter k (by omega)
    exact ⟨k - 2, by omega, by omega, fun _ => by omega⟩

/-- The loop of `__init_trace_tbl` on a new ring: the indices behind its
capacity are dropped. -/
theorem populate_items (hn : 1 ≤ n) (hle : 4 * n ≤ 2 ^ 31)
    (hr : ringbufferCreate env none (4 * UInt32.ofNat n) = some r) :
    ∃ r' k, populateIndices r n = some r'
      ∧ HoldsItems r' ((indices n).take (2 ^ k - 1)) ∧ n ≤ 2 ^ k
      ∧ ((∃ j, n = 2 ^ j) → n = 2 ^ k) := by
  obtain ⟨k, hk, hge, hpow⟩ := createSize_indices hn hle
  obtain ⟨hholds, hsize⟩ := holds_create hr
  have hempty : HoldsItems r [] := hholds
  have hpos := Nat.two_pow_pos k
  obtain ⟨r', hfold, hr'⟩ := put_items (indices n) (2 ^ k - 1) hempty
    (by rw [hsize, hk]; omega) (Nat.zero_le _)
  rw [List.nil_append] at hr'
  unfold indices at hfold
  rw [List.foldlM_map] at hfold
  exact ⟨r', k, hfold, hr', hge, hpow⟩

/-- When all indices are available after the initialisation of a table of
`n` traces: exactly when `n` is no power of two. -/
theorem allAvailable_iff (hn : 1 ≤ n) (hle : 4 * n ≤ 2 ^ 31)
    (hr : ringbufferCreate env none (4 * UInt32.ofNat n) = some r) :
    ∃ r', populateIndices r n = some r'
      ∧ (AllAvailable r' n ↔ ¬ ∃ k, n = 2 ^ k) := by
  obtain ⟨r', k, hpop, hr', hge, hpow⟩ := populate_items hn hle hr
  refine ⟨r', hpop, ?_⟩
  constructor
  · intro hall hex
    have heq := hpow hex
    exact not_allAvailable hr' (by omega) hall
  · intro hno
    have hne : n ≠ 2 ^ k := fun heq => hno ⟨k, heq⟩
    rw [List.take_of_length_le (by rw [length_indices]; omega)] at hr'
    have hget := getIndices_items hr'
    rw [length_indices] at hget
    exact ⟨hr', hget⟩

/-- System calls that all succeed. -/
def okEnv : CreateEnv :=
  { openOk := true, ftruncateOk := fun _ => true, mmapOk := fun _ => true }

theorem ringbufferCreate_okEnv (size : UInt32) :
    ∃ r, ringbufferCreate okEnv none size = some r := ⟨_, rfl⟩

theorem allAvailable_iff_twelve :
    ∃ r r', ringbufferCreate okEnv none (4 * UInt32.ofNat 12) = some r
      ∧ populateIndices r 12 = some r' ∧ (AllAvailable r' 12 ↔ ¬ ∃ k, 12 = 2 ^ k) := by
  obtain ⟨r, hr⟩ := ringbufferCreate_okEnv (4 * UInt32.ofNat 12)
  obtain ⟨r', hpop, hiff⟩ := allAvailable_iff (by decide) (by decide) hr
  exact ⟨r, r', hr, hpop, hiff⟩

/-- Of the 16384 indices of the command one is lost. -/
theorem traceMax_not_available :
    ∃ r r', ringbufferCreate okEnv none (4 * UInt32.ofNat traceMax) = some r
      ∧ populateIndices r traceMax = some r' ∧ ¬ AllAvailable r' traceMax := by
  obtain ⟨r, hr⟩ := ringbufferCreate_okEnv (4 * UInt32.ofNat traceMax)
  obtain ⟨r', k, hpop, hr', -, hpow⟩ :=
    populate_items (n := traceMax) (by decide) (by decide) hr
  have heq : traceMax = 2 ^ k := hpow ⟨14, rfl⟩
  have hpos := Nat.two_pow_pos k
  exact ⟨r, r', hr, hpop, not_allAvailable hr' (by omega)⟩

end Populate

end PktSender.Dump
