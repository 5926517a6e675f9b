/-
Bit arithmetic on 32-bit words that the C sources use in place of division
and rounding: masking with a power of two minus one, and the shift-and-or
smear that fills in all bits below the highest one.

# Masks

For a word `s` with `s = 2 ^ k`, `x & (s - 1)` is `x % s`. Because `2 ^ k`
divides `2 ^ 32`, 32-bit wrap-around inside the masked expression does not
matter: the masked sum of two words is the sum modulo `s`
(`add_and_mask`), and the masked difference of the words that hold two
stream positions is the distance of the positions (`sub_and_mask`).

# Smearing

`smear x` is `x` with every bit below its highest one set, computed in
five shift-and-or steps; on 32-bit inputs it is `2 ^ size x - 1`
(`smear_eq`), `Nat.size` being the number of binary digits.
-/
import Mathlib.Data.Nat.ModEq
import Mathlib.Data.Nat.Size
import Mathlib.Tactic.Ring

namespace Bits

-- ================================================================ masks

/-- A positive word minus one does not wrap. -/
theorem toNat_sub_one {s : UInt32} (h : 0 < s.toNat) :
    (s - 1).toNat = s.toNat - 1 := by
  have := s.toNat_lt
  rw [UInt32.toNat_sub]
  simp only [UInt32.reduceToNat]
  omega

/-- Masking with a power of two minus one is the remainder. -/
theorem and_mask {s : UInt32} {k : Nat} (hs : s.toNat = 2 ^ k) (x : UInt32) :
    (x &&& (s - 1)).toNat = x.toNat % s.toNat := by
  rw [UInt32.toNat_and, toNat_sub_one (by rw [hs]; exact Nat.two_pow_pos k), hs,
    Nat.and_two_pow_sub_one_eq_mod]

/-- A power of two that fits a word divides the word size. -/
theorem two_pow_dvd {s : UInt32} {k : Nat} (hs : s.toNat = 2 ^ k) :
    s.toNat ∣ 2 ^ 32 := by
  rw [hs]
  apply Nat.pow_dvd_pow 2
  have hlt : 2 ^ k < 2 ^ 32 := hs ▸ s.toNat_lt
  exact Nat.le_of_lt ((Nat.pow_lt_pow_iff_right (by omega)).mp hlt)

/-- The masked sum is the sum modulo the size, wrap-around included. -/
theorem add_and_mask {s : UInt32} {k : Nat} (hs : s.toNat = 2 ^ k)
    (x y : UInt32) :
    ((x + y) &&& (s - 1)).toNat = (x.toNat + y.toNat) % s.toNat := by
  rw [and_mask hs, UInt32.toNat_add, Nat.mod_mod_of_dvd _ (two_pow_dvd hs)]

/-- The masked difference of the cells of two positions less than one
revolution apart is their distance, wrap-around included. -/
theorem sub_and_mask {s w r : UInt32} {k W R : Nat} (hs : s.toNat = 2 ^ k)
    (hw : w.toNat = W % s.toNat) (hr : r.toNat = R % s.toNat) (hle : R ≤ W)
    (hlt : W < R + s.toNat) :
    ((w - r) &&& (s - 1)).toNat = W - R := by
  have hpos : 0 < s.toNat := by rw [hs]; exact Nat.two_pow_pos k
  have hr32 := r.toNat_lt
  rw [and_mask hs, UInt32.toNat_sub, Nat.mod_mod_of_dvd _ (two_pow_dvd hs)]
  have hcong : 2 ^ 32 - r.toNat + w.toNat ≡ W - R [MOD s.toNat] := by
    apply Nat.ModEq.add_right_cancel' r.toNat
    have h32 : 2 ^ 32 ≡ 0 [MOD s.toNat] :=
      (Nat.modEq_zero_iff_dvd).mpr (two_pow_dvd hs)
    calc 2 ^ 32 - r.toNat + w.toNat + r.toNat
        = 2 ^ 32 + w.toNat := by omega
      _ ≡ 0 + W [MOD s.toNat] :=
          h32.add (by rw [hw]; exact Nat.mod_modEq _ _)
      _ = W - R + R := by omega
      _ ≡ W - R + r.toNat [MOD s.toNat] :=
          Nat.ModEq.add_left _ (by rw [hr]; exact (Nat.mod_modEq _ _).symm)
  rw [hcong, Nat.mod_eq_of_lt (by omega)]

/-- A masked word is at most the mask. -/
theorem and_le_right (x m : UInt32) : (x &&& m).toNat ≤ m.toNat := by
  rw [UInt32.toNat_and]
  exact Nat.and_le_right

-- ============================================================== smearing

/-- Or a number with itself shifted right by 1, 2, 4, 8 and 16 places. -/
def smear (x : Nat) : Nat :=
  let x := x ||| (x >>> 1)
  let x := x ||| (x >>> 2)
  let x := x ||| (x >>> 4)
  let x := x ||| (x >>> 8)
  x ||| (x >>> 16)

/-- One step doubles the distance over which bits are collected. -/
theorem smear_step {x y w : Nat}
    (h : ∀ i, y.testBit i = true ↔ ∃ j < w, x.testBit (i + j) = true) (i : Nat) :
    (y ||| (y >>> w)).testBit i = true
      ↔ ∃ j < w + w, x.testBit (i + j) = true := by
  rw [Nat.testBit_or, Bool.or_eq_true, Nat.testBit_shiftRight, h, h]
  constructor
  · intro hor
    rcases hor with ⟨j, hj, hx⟩ | ⟨j, hj, hx⟩
    · exact ⟨j, by omega, hx⟩
    · exact ⟨w + j, by omega, by rw [← hx]; congr 1; omega⟩
  · intro hex
    obtain ⟨j, hj, hx⟩ := hex
    rcases Nat.lt_or_ge j w with hlt | hge
    · exact .inl ⟨j, hlt, hx⟩
    · exact .inr ⟨j - w, by omega, by rw [← hx]; congr 1; omega⟩

/-- A bit of the smear is set when a bit up to 31 places higher is. -/
theorem smear_testBit (x i : Nat) :
    (smear x).testBit i = true ↔ ∃ j < 32, x.testBit (i + j) = true := by
  have h0 : ∀ i, x.testBit i = true ↔ ∃ j < 1, x.testBit (i + j) = true := by
    intro i
    simp
  exact smear_step (smear_step (smear_step (smear_step (smear_step h0)))) i

/-- A 32-bit number smears to all ones below its highest bit. -/
theorem smear_eq {x : Nat} (hx : x < 2 ^ 32) : smear x = 2 ^ x.size - 1 := by
  apply Nat.eq_of_testBit_eq
  intro i
  rw [Nat.testBit_two_pow_sub_one, Bool.eq_iff_iff, smear_testBit,
    decide_eq_true_iff]
  constructor
  · intro hex
    obtain ⟨j, -, hj⟩ := hex
    have := Nat.lt_size.mpr (Nat.ge_two_pow_of_testBit hj)
    omega
  · intro hi
    have hsize : x.size ≤ 32 := Nat.size_le.mpr hx
    refine ⟨x.size - 1 - i, by omega, ?_⟩
    rw [show i + (x.size - 1 - i) = x.size - 1 by omega]
    -- the highest bit of `x` is set: `x` lies in `[2^(size-1), 2^size)`
    have hge : 2 ^ (x.size - 1) ≤ x := Nat.lt_size.mp (by omega)
    have hlt : x < 2 ^ (x.size - 1 + 1) := by
      rw [show x.size - 1 + 1 = x.size by omega]
      exact Nat.lt_size_self x
    rw [Nat.testBit_eq_decide_div_mod_eq, decide_eq_true_iff]
    have hq : x / 2 ^ (x.size - 1) = 1 := by
      rw [Nat.div_eq_iff (Nat.two_pow_pos _)]
      rw [pow_succ] at hlt
      omega
    rw [hq]

/-- Rounding up: the smear of `n - 1` plus one is a power of two between
`n` and `2n`. -/
theorem smear_pred_succ {n : Nat} (h1 : 1 ≤ n) (h2 : n ≤ 2 ^ 32) :
    ∃ k, smear (n - 1) + 1 = 2 ^ k ∧ n ≤ 2 ^ k ∧ 2 ^ k < 2 * n := by
  refine ⟨(n - 1).size, ?_, ?_, ?_⟩
  · rw [smear_eq (by omega)]
    have := Nat.two_pow_pos (n - 1).size
    omega
  · have := Nat.lt_size_self (n - 1)
    omega
  · rcases Nat.eq_zero_or_pos (n - 1) with h0 | hpos
    · rw [h0, Nat.size_zero]
      omega
    · have hs : 0 < (n - 1).size := Nat.size_pos.mpr hpos
      have hge : 2 ^ ((n - 1).size - 1) ≤ n - 1 := Nat.lt_size.mp (by omega)
      have hsucc : 2 ^ (n - 1).size = 2 ^ ((n - 1).size - 1) * 2 := by
        rw [← pow_succ]
        congr 1
        omega
      omega

end Bits
