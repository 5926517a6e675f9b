/-
Keys that only differ in the low bits of their last word are hashed apart.

Feeding a word shifts the register, which is linear, so how two words of one
block of 4096 differ decides how their hashes differ (`crc32cU64_toBitVec`). The 12
bits they can differ in reach the lowest 12 bits of the hash through the entries
of two tables, and no two of these entries cancel there (`low_entries`). So
those bits of the hash tell the words of a block apart (`crc32cU64_low_inj`):
4096 buckets get one word each.
-/
import PktSender.Hash.Proofs.Crc

namespace PktSender.Hash

open Crc

/-- No entry for a low byte and none for the four bits above it agree in their
lowest 12 bits, but the two for zero. -/
theorem low_entries :
    (((crc32cTables.get 6).toList.take 16).zipIdx.all fun y =>
      (crc32cTables.get 7).toList.zipIdx.all fun x =>
        (x.1 ^^^ y.1) &&& 4095 != 0 || (x.2 == 0 && y.2 == 0)) = true := by
  decide +kernel

/-- The entry of a byte, with its place in the table. -/
theorem crc32cEntry_mem (n : Fin 8) (x : UInt32) :
    (crc32cEntry n x, (x &&& 0xff).toNat) ∈ (crc32cTables.get n).toList.zipIdx := by
  rw [List.mk_mem_zipIdx_iff_getElem?, Vector.getElem?_toList,
    Vector.getElem?_eq_getElem (low_byte_lt x)]
  rfl

theorem crc32cEntry_mem_take (n : Fin 8) {x : UInt32} (hx : (x &&& 0xff).toNat < 16) :
    (crc32cEntry n x, (x &&& 0xff).toNat)
      ∈ ((crc32cTables.get n).toList.take 16).zipIdx := by
  have hmem := crc32cEntry_mem n x
  rw [List.mk_mem_zipIdx_iff_getElem?] at hmem ⊢
  rw [List.getElem?_take_of_lt hx]
  exact hmem

/-- Numbers that agree from bit 12 on. -/
theorem xor_lt_of_div_eq {x y : ℕ} (h : x / 4096 = y / 4096) : x ^^^ y < 4096 := by
  have hshift : (x ^^^ y) / 2 ^ 12 = 0 := by
    rw [← Nat.shiftRight_eq_div_pow, Nat.shiftRight_xor_distrib, Nat.shiftRight_eq_div_pow,
      Nat.shiftRight_eq_div_pow, show 2 ^ 12 = 4096 from rfl, h, Nat.xor_self]
  exact (Nat.div_eq_zero_iff_lt (by decide)).mp hshift

/-- A register of at most 12 bits. -/
theorem shift_low {d : UInt32} (hd : d < 4096)
    (hlow : shift castagnoli 64 d.toBitVec &&& 4095 = 0) : d = 0 := by
  have hlt : d.toNat < 4096 := UInt32.lt_iff_toNat_lt.mp hd
  have hbyte : ∀ x : UInt32, (x &&& 0xff).toNat = x.toNat % 256 := by
    intro x
    rw [UInt32.toNat_and, show (0xff : UInt32).toNat = 2 ^ 8 - 1 from rfl,
      Nat.and_two_pow_sub_one_eq_mod]
  have hnext : (d >>> 8).toNat = d.toNat / 256 := by
    rw [UInt32.toNat_shiftRight, Nat.shiftRight_eq_div_pow]
    rfl
  have hrest : d >>> 16 = 0 := by
    apply UInt32.toNat_inj.mp
    rw [UInt32.toNat_shiftRight, Nat.shiftRight_eq_div_pow,
      show (16 : UInt32).toNat % 32 = 16 from rfl, UInt32.toNat_zero]
    omega
  have hword := crc32Upd_word (n := 7) (by decide) d
  rw [hrest, show crc32Upd 0 (7 - 2) = 0 by decide +kernel, UInt32.xor_zero] at hword
  have hentries : (crc32cEntry 7 d ^^^ crc32cEntry 6 (d >>> 8)) &&& 4095 = 0 := by
    apply UInt32.toBitVec_inj.mp
    rw [UInt32.toBitVec_and]
    exact (congrArg (· &&& (4095 : UInt32).toBitVec) hword).trans hlow
  have hall := List.all_eq_true.mp (List.all_eq_true.mp low_entries _
    (crc32cEntry_mem_take 6 (x := d >>> 8) (by rw [hbyte, hnext]; omega))) _
    (crc32cEntry_mem 7 d)
  simp only [hentries, bne_self_eq_false, Bool.false_or, Bool.and_eq_true, beq_iff_eq, hbyte,
    hnext] at hall
  apply UInt32.toNat_inj.mp
  rw [UInt32.toNat_zero]
  omega

theorem xor_and (x y m : BitVec 32) : (x ^^^ y) &&& m = (x &&& m) ^^^ (y &&& m) := by
  apply BitVec.eq_of_getLsbD_eq
  intro i _
  rw [BitVec.getLsbD_and, BitVec.getLsbD_xor, BitVec.getLsbD_xor, BitVec.getLsbD_and,
    BitVec.getLsbD_and, Bool.and_xor_distrib_right]

/-- Two words with the same bits from 12 on. -/
theorem crc32cU64_low_inj {a b : UInt64} {initVal : UInt32} (hblock : a >>> 12 = b >>> 12)
    (hbucket : crc32cU64 a initVal &&& 4095 = crc32cU64 b initVal &&& 4095) : a = b := by
  have hdiv : a.toNat / 4096 = b.toNat / 4096 := by
    have hnat := congrArg UInt64.toNat hblock
    rw [UInt64.toNat_shiftRight, UInt64.toNat_shiftRight, Nat.shiftRight_eq_div_pow,
      Nat.shiftRight_eq_div_pow] at hnat
    exact hnat
  have hhigh : (a >>> 32).toUInt32 = (b >>> 32).toUInt32 := by
    congr 1
    apply UInt64.toNat_inj.mp
    rw [UInt64.toNat_shiftRight, UInt64.toNat_shiftRight, Nat.shiftRight_eq_div_pow,
      Nat.shiftRight_eq_div_pow, show 2 ^ ((32 : UInt64).toNat % 64) = 4294967296 from rfl]
    omega
  have hsmall : a.toUInt32 ^^^ b.toUInt32 < 4096 := by
    rw [UInt32.lt_iff_toNat_lt, UInt32.toNat_xor, UInt64.toNat_toUInt32, UInt64.toNat_toUInt32]
    exact xor_lt_of_div_eq (by omega)
  have hcross : initVal ^^^ a.toUInt32 = (a.toUInt32 ^^^ b.toUInt32) ^^^ (initVal ^^^ b.toUInt32) := by
    rw [UInt32.xor_comm initVal b.toUInt32, UInt32.xor_assoc, ← UInt32.xor_assoc b.toUInt32,
      UInt32.xor_self, UInt32.zero_xor, UInt32.xor_comm]
  -- the registers differ by what the difference of the words is shifted to
  have hdiff : (crc32cU64 a initVal).toBitVec
      = shift castagnoli 64 (a.toUInt32 ^^^ b.toUInt32).toBitVec
        ^^^ (crc32cU64 b initVal).toBitVec := by
    rw [crc32cU64_toBitVec, crc32cU64_toBitVec, hhigh, hcross, UInt32.toBitVec_xor, shift_xor,
      BitVec.xor_assoc]
  have hlow : shift castagnoli 64 (a.toUInt32 ^^^ b.toUInt32).toBitVec &&& 4095 = 0 := by
    have hsame := congrArg UInt32.toBitVec hbucket
    rw [UInt32.toBitVec_and, UInt32.toBitVec_and, hdiff, xor_and] at hsame
    exact (BitVec.xor_left_inj _).mp (hsame.trans BitVec.zero_xor.symm)
  have hzero := shift_low hsmall hlow
  have hsame : a.toUInt32 = b.toUInt32 := UInt32.xor_eq_zero_iff.mp hzero
  have hnat := congrArg UInt32.toNat hsame
  rw [UInt64.toNat_toUInt32, UInt64.toNat_toUInt32] at hnat
  apply UInt64.toNat_inj.mp
  omega

end PktSender.Hash
