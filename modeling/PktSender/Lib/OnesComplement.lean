/-
One's complement addition of 16-bit words, as Internet checksums use it.

A carry out of the word comes back in at the low end, so a sum is right
modulo `2 ^ 16 - 1`, and of the two words that are zero there it is the one
with all bits set unless every word is zero (`onesSum_eq_ones_iff`). It does
not matter in which byte order the words are read (`dvd_sum_words_swap`).
-/
import PktSender.Lib.LittleEndian
import Mathlib.Data.Nat.ModEq
import Mathlib.Algebra.BigOperators.Group.List.Basic

namespace OnesComplement

open LittleEndian

/-- Add with end-around carry. -/
def addc (a b : UInt16) : UInt16 :=
  let s := a.toNat + b.toNat
  UInt16.ofNat (s % 65536 + s / 65536)

def onesSum (ws : List UInt16) : UInt16 := ws.foldl addc 0

-- =============================================================== the sum

theorem toNat_addc (a b : UInt16) :
    (addc a b).toNat = (a.toNat + b.toNat) % 65536 + (a.toNat + b.toNat) / 65536 := by
  have ha : a.toNat < 65536 := a.toNat_lt
  have hb : b.toNat < 65536 := b.toNat_lt
  rw [addc, UInt16.toNat_ofNat']
  omega

theorem addc_modEq (a b : UInt16) : (addc a b).toNat ≡ a.toNat + b.toNat [MOD 65535] := by
  rw [toNat_addc, Nat.ModEq]
  omega

theorem addc_eq_zero_iff (a b : UInt16) : addc a b = 0 ↔ a = 0 ∧ b = 0 := by
  rw [← UInt16.toNat_inj, ← UInt16.toNat_inj, ← UInt16.toNat_inj, toNat_addc]
  show _ = 0 ↔ a.toNat = 0 ∧ b.toNat = 0
  omega

theorem foldl_addc (ws : List UInt16) (a : UInt16) :
    (ws.foldl addc a).toNat ≡ a.toNat + (ws.map UInt16.toNat).sum [MOD 65535]
      ∧ (ws.foldl addc a = 0 ↔ a = 0 ∧ ∀ w ∈ ws, w = 0) := by
  induction ws generalizing a with
  | nil => exact ⟨rfl, (and_iff_left (List.forall_mem_nil _)).symm⟩
  | cons w ws ih =>
      obtain ⟨hsum, hzero⟩ := ih (addc a w)
      refine ⟨?_, ?_⟩
      · rw [List.foldl_cons, List.map_cons, List.sum_cons, ← Nat.add_assoc]
        exact hsum.trans ((addc_modEq a w).add_right _)
      · rw [List.foldl_cons, hzero, addc_eq_zero_iff, List.forall_mem_cons, and_assoc]

/-- All bits of the sum are set: the words add up to a multiple of
`2 ^ 16 - 1`, and one of them is not zero. -/
theorem onesSum_eq_ones_iff (ws : List UInt16) :
    onesSum ws = 0xFFFF ↔ 65535 ∣ (ws.map UInt16.toNat).sum ∧ ∃ w ∈ ws, w ≠ 0 := by
  obtain ⟨hsum, hzero⟩ := foldl_addc ws 0
  have hlt : (onesSum ws).toNat < 65536 := (onesSum ws).toNat_lt
  have hmod : (onesSum ws).toNat ≡ (ws.map UInt16.toNat).sum [MOD 65535] := by
    rw [show (0 : UInt16).toNat = 0 from rfl, Nat.zero_add] at hsum
    exact hsum
  have hne : (∃ w ∈ ws, w ≠ 0) ↔ (onesSum ws).toNat ≠ 0 := by
    have hnat : (onesSum ws).toNat = 0 ↔ onesSum ws = 0 :=
      ⟨fun h => UInt16.toNat_inj.mp h, fun h => by rw [h]; rfl⟩
    rw [ne_eq, hnat, onesSum, hzero]
    simp
  rw [hne, Nat.dvd_iff_mod_eq_zero, ← hmod, ← UInt16.toNat_inj,
    show (0xFFFF : UInt16).toNat = 65535 from rfl]
  omega

-- ============================================================== the words

/-- The 16-bit words of a byte string, the first byte high. -/
def wordsBe : List UInt8 → List UInt16
  | hi :: lo :: rest => UInt16.ofNat (256 * hi.toNat + lo.toNat) :: wordsBe rest
  | _ => []

/-- The first byte low. -/
def wordsLe : List UInt8 → List UInt16
  | lo :: hi :: rest => UInt16.ofNat (lo.toNat + 256 * hi.toNat) :: wordsLe rest
  | _ => []

/-- The words of a string add up to the number it is. -/
theorem sum_wordsLe_modEq : ∀ {bs : List UInt8}, 2 ∣ bs.length →
    ((wordsLe bs).map UInt16.toNat).sum ≡ ofLeBytes bs [MOD 65535]
  | [], _ => rfl
  | [_], h => absurd h (by simp)
  | b :: c :: rest, h => by
      have ih := @sum_wordsLe_modEq rest (by
        rw [List.length_cons, List.length_cons] at h
        omega)
      have hb := b.toNat_lt
      have hc := c.toNat_lt
      rw [wordsLe, List.map_cons, List.sum_cons, UInt16.toNat_ofNat',
        Nat.mod_eq_of_lt (by omega), ofLeBytes, ofLeBytes]
      calc b.toNat + 256 * c.toNat + ((wordsLe rest).map UInt16.toNat).sum
          ≡ b.toNat + 256 * c.toNat + ofLeBytes rest [MOD 65535] := ih.add_left _
        _ ≡ b.toNat + 256 * c.toNat + ofLeBytes rest + 65535 * ofLeBytes rest [MOD 65535] :=
            (Nat.add_mul_mod_self_left _ _ _).symm
        _ = b.toNat + 256 * (c.toNat + 256 * ofLeBytes rest) := by omega

/-- Swapping the bytes of every word multiplies the sum by 256. -/
theorem sum_wordsBe_modEq : ∀ bs : List UInt8,
    ((wordsBe bs).map UInt16.toNat).sum
      ≡ 256 * ((wordsLe bs).map UInt16.toNat).sum [MOD 65535]
  | [] => rfl
  | [_] => rfl
  | b :: c :: rest => by
      have ih := sum_wordsBe_modEq rest
      have hb := b.toNat_lt
      have hc := c.toNat_lt
      rw [wordsLe, wordsBe, List.map_cons, List.map_cons, List.sum_cons, List.sum_cons,
        UInt16.toNat_ofNat', UInt16.toNat_ofNat', Nat.mod_eq_of_lt (by omega),
        Nat.mod_eq_of_lt (by omega)]
      calc 256 * b.toNat + c.toNat + ((wordsBe rest).map UInt16.toNat).sum
          ≡ 256 * b.toNat + c.toNat + 256 * ((wordsLe rest).map UInt16.toNat).sum
              [MOD 65535] := ih.add_left _
        _ ≡ 256 * b.toNat + c.toNat + 256 * ((wordsLe rest).map UInt16.toNat).sum
              + 65535 * c.toNat [MOD 65535] := (Nat.add_mul_mod_self_left _ _ _).symm
        _ = 256 * (b.toNat + 256 * c.toNat + ((wordsLe rest).map UInt16.toNat).sum) := by omega

/-- In either order the words add up to a multiple of `2 ^ 16 - 1`, or in
neither. -/
theorem dvd_sum_words_swap (bs : List UInt8) :
    65535 ∣ ((wordsBe bs).map UInt16.toNat).sum
      ↔ 65535 ∣ ((wordsLe bs).map UInt16.toNat).sum := by
  have hswap := sum_wordsBe_modEq bs
  rw [Nat.ModEq] at hswap
  rw [Nat.dvd_iff_mod_eq_zero, Nat.dvd_iff_mod_eq_zero, hswap]
  omega

end OnesComplement
