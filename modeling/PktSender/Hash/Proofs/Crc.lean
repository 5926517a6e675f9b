/-
The table look-ups of tools/hash.c compute the reflected CRC-32C register.

Every table entry is checked against the bit-by-bit register of
`Lib/Crc.lean`; the two word functions follow by cutting the word into
bytes. What the hash table needs from this is that a word can be chosen to
give any hash: feeding a word is a bijection of the register.
-/
import PktSender.Lib.Crc
import PktSender.Hash.Basic

namespace PktSender.Hash

open Crc

/-- The reflected CRC-32C polynomial. -/
def castagnoli : BitVec 32 := 0x82F63B78

theorem castagnoli_top : castagnoli.getLsbD (32 - 1) = true := by decide

-- ============================================================== the tables

theorem crc32cTable0_eq :
    crc32cTable0.toList.map UInt32.toBitVec
      = (List.range 256).map fun i => shift castagnoli 8 (BitVec.ofNat 32 i) := by
  decide +kernel

/-- Each row shifts its bytes one byte further than the row before. -/
theorem crc32cTables_succ (n : Fin 7) :
    (crc32cTables.get n.succ).toList.map UInt32.toBitVec
      = (crc32cTables.get n.castSucc).toList.map fun x =>
          shift castagnoli 8 x.toBitVec := by
  revert n
  decide +kernel

/-- Row `n` holds the bytes shifted by `n + 1` bytes. -/
theorem crc32cTables_eq (n : Fin 8) :
    (crc32cTables.get n).toList.map UInt32.toBitVec
      = (List.range 256).map fun i =>
          shift castagnoli (8 * (n.val + 1)) (BitVec.ofNat 32 i) := by
  induction n using Fin.induction with
  | zero => exact crc32cTable0_eq
  | succ n ih =>
      calc (crc32cTables.get n.succ).toList.map UInt32.toBitVec
          = ((crc32cTables.get n.castSucc).toList.map UInt32.toBitVec).map
              (shift castagnoli 8) := by
            rw [crc32cTables_succ, List.map_map]
            rfl
        _ = (List.range 256).map fun i =>
              shift castagnoli (8 * (n.succ.val + 1)) (BitVec.ofNat 32 i) := by
            rw [ih, List.map_map]
            congr 1
            funext i
            rw [Function.comp_apply, ← shift_add]
            congr 1
            rw [Fin.val_succ, Fin.val_castSucc]
            omega

/-- One look-up. -/
theorem crc32cEntry_toBitVec (n : Fin 8) (x : UInt32) :
    (crc32cEntry n x).toBitVec
      = shift castagnoli (8 * (n.val + 1)) (x &&& 0xff).toBitVec := by
  have hlt := low_byte_lt x
  have hget := congrArg (·[(x &&& 0xff).toNat]?) (crc32cTables_eq n)
  simp only [List.getElem?_map, List.getElem?_range hlt, Option.map_some,
    Vector.getElem?_toList, Vector.getElem?_eq_getElem hlt,
    Option.some.injEq] at hget
  have hself : BitVec.ofNat 32 (x &&& 0xff).toNat = (x &&& 0xff).toBitVec := by
    apply BitVec.eq_of_toNat_eq
    rw [BitVec.toNat_ofNat]
    exact Nat.mod_eq_of_lt (UInt32.toNat_lt _)
  rw [hself] at hget
  exact hget

-- =============================================================== the words

/-- The bits of a masked byte. -/
theorem getLsbD_low_byte (x : UInt32) (i : Nat) :
    (x &&& 0xff).toBitVec.getLsbD i
      = (decide (i < 8) && x.toBitVec.getLsbD i) := by
  have hmask : (255#32).getLsbD i = decide (i < 8) := by
    rw [BitVec.getLsbD_ofNat, show 255 = 2 ^ 8 - 1 from rfl,
      Nat.testBit_two_pow_sub_one, ← Bool.decide_and]
    exact decide_eq_decide.mpr (by omega)
  rw [UInt32.toBitVec_and, BitVec.getLsbD_and, Bool.and_comm,
    show (0xff : UInt32).toBitVec = 255#32 from rfl, hmask]

/-- The four look-ups for a word shift it by `n + 1` bytes. -/
theorem crc32Upd_word {n : Fin 8} (hn : 3 ≤ n) (x : UInt32) :
    (crc32Upd x n ^^^ crc32Upd (x >>> 16) (n - 2)).toBitVec
      = shift castagnoli (8 * (n.val + 1)) x.toBitVec := by
  have hval : (n - 1).val = n.val - 1 ∧ (n - 2).val = n.val - 2
      ∧ (n - 2 - 1).val = n.val - 3 ∧ 3 ≤ n.val := by
    revert n
    decide
  obtain ⟨h1, h2, h3, h0⟩ := hval
  -- the bytes, from the lowest
  have hcut : ∀ {m : Nat} (y : UInt32),
      shift castagnoli (m + 8) y.toBitVec
        = shift castagnoli (m + 8) (y &&& 0xff).toBitVec
          ^^^ shift castagnoli m (y >>> 8).toBitVec := fun y => by
    rw [shift_split castagnoli (getLsbD_low_byte y)]
    rfl
  have h88 : x >>> 8 >>> 8 = x >>> 16 :=
    UInt32.toBitVec_inj.mp (BitVec.shiftRight_add x.toBitVec 8 8).symm
  have hlast : ((x >>> 16 >>> 8) &&& 0xff).toBitVec
      = (x >>> 16 >>> 8).toBitVec := by
    apply BitVec.eq_of_getLsbD_eq
    intro i _
    rw [getLsbD_low_byte]
    by_cases hi : i < 8
    · rw [decide_eq_true hi, Bool.true_and]
    · rw [decide_eq_false hi, Bool.false_and]
      show false = (x.toBitVec >>> 16 >>> 8).getLsbD i
      rw [BitVec.getLsbD_ushiftRight, BitVec.getLsbD_ushiftRight,
        BitVec.getLsbD_of_ge _ _ (by omega)]
  obtain ⟨k, hk⟩ : ∃ k, n.val = k + 3 := ⟨n.val - 3, by omega⟩
  have e0 : 8 * (n.val + 1) = 8 * k + 24 + 8 := by omega
  have e1 : 8 * (n.val - 1 + 1) = 8 * k + 24 := by omega
  have e2 : 8 * (n.val - 2 + 1) = 8 * k + 16 := by omega
  have e3 : 8 * (n.val - 3 + 1) = 8 * k + 8 := by omega
  calc (crc32Upd x n ^^^ crc32Upd (x >>> 16) (n - 2)).toBitVec
      = (shift castagnoli (8 * k + 24 + 8) (x &&& 0xff).toBitVec
          ^^^ shift castagnoli (8 * k + 24) (x >>> 8 &&& 0xff).toBitVec)
        ^^^ (shift castagnoli (8 * k + 16) (x >>> 16 &&& 0xff).toBitVec
          ^^^ shift castagnoli (8 * k + 8) (x >>> 16 >>> 8).toBitVec) := by
        simp only [crc32Upd, UInt32.toBitVec_xor, crc32cEntry_toBitVec, h1, h2,
          h3, hlast, e0, e1, e2, e3]
    _ = shift castagnoli (8 * k + 24 + 8) x.toBitVec := by
        rw [hcut x, show 8 * k + 24 = 8 * k + 16 + 8 by omega, hcut (x >>> 8),
          h88, show 8 * k + 16 = 8 * k + 8 + 8 by omega, hcut (x >>> 16)]
        simp only [BitVec.xor_assoc]
    _ = shift castagnoli (8 * (n.val + 1)) x.toBitVec := by rw [e0]

/-- `crc32c_u64` feeds the low half and then the high half. -/
theorem crc32cU64_toBitVec (data : UInt64) (initVal : UInt32) :
    (crc32cU64 data initVal).toBitVec
      = shift castagnoli 64 (initVal ^^^ data.toUInt32).toBitVec
        ^^^ shift castagnoli 32 (data >>> 32).toUInt32.toBitVec := by
  have hlo := crc32Upd_word (n := 7) (by decide) (initVal ^^^ data.toUInt32)
  have hhi := crc32Upd_word (n := 3) (by decide) (data >>> 32).toUInt32
  unfold crc32cU64
  rw [UInt32.toBitVec_xor]
  exact congrArg₂ (· ^^^ ·) hlo hhi

-- ===================================================== choosing the value

/-- For any data, some start value leads to the value wanted. -/
theorem crc32cU64_init (data : UInt64) (v : UInt32) :
    ∃ initVal, crc32cU64 data initVal = v := by
  obtain ⟨x, hx⟩ := shift_surjective castagnoli_top 64
    (v.toBitVec ^^^ shift castagnoli 32 (data >>> 32).toUInt32.toBitVec)
  refine ⟨⟨x⟩ ^^^ data.toUInt32, UInt32.toBitVec_inj.mp ?_⟩
  rw [crc32cU64_toBitVec, UInt32.xor_assoc, UInt32.xor_self, UInt32.xor_zero,
    hx, BitVec.xor_assoc, BitVec.xor_self, BitVec.xor_zero]

/-- For any start value and low half, some high half does. -/
theorem crc32cU64_high (lo initVal v : UInt32) :
    ∃ hi : UInt32, ∀ data : UInt64, data.toUInt32 = lo →
      (data >>> 32).toUInt32 = hi → crc32cU64 data initVal = v := by
  obtain ⟨x, hx⟩ := shift_surjective castagnoli_top 32
    (shift castagnoli 64 (initVal ^^^ lo).toBitVec ^^^ v.toBitVec)
  refine ⟨⟨x⟩, fun data hlo hhi => UInt32.toBitVec_inj.mp ?_⟩
  rw [crc32cU64_toBitVec, hlo, hhi, hx, ← BitVec.xor_assoc, BitVec.xor_self,
    BitVec.zero_xor]

end PktSender.Hash
