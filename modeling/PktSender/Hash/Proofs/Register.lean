/-
`hash_crc32c` against the CRC-32C register, over whole strings.

# The words

A word that is looked up is a string of four or eight bytes fed to the
register (`crc32cU32_feed`, `crc32cU64_feed`); the loop feeds the whole
64-bit words of the data.

# The tail

A tail that is not one or two 32-bit words is filled up with zeros: so the
function is the register of the data with zeros up to a multiple of four
(`hashCrc32c_feed`), and differs from the register of the data where these
zeros change it. One of the two registers they do not change is zero
(`shift_eq_self_iff`).
-/
import PktSender.Hash.Proofs.Crc

namespace PktSender.Hash

open Crc LittleEndian

-- ================================================================ the words

theorem crc32cU32_feed {bs : List UInt8} (hlen : bs.length = 4) (initVal : UInt32) :
    (crc32cU32 (UInt32.ofNat (ofLeBytes bs)) initVal).toBitVec
      = feed castagnoli initVal.toBitVec bs := by
  have hword := crc32Upd_word (n := 3) (by decide) (initVal ^^^ UInt32.ofNat (ofLeBytes bs))
  rw [feed_eq_shift _ _ (by omega), hlen]
  exact hword

/-- The two halves of a 64-bit word. -/
theorem word64_halves {lo : List UInt8} (hlo : lo.length = 4) (hi : List UInt8) :
    (UInt64.ofNat (ofLeBytes (lo ++ hi))).toUInt32 = UInt32.ofNat (ofLeBytes lo)
      ∧ (UInt64.ofNat (ofLeBytes (lo ++ hi)) >>> 32).toUInt32 = UInt32.ofNat (ofLeBytes hi) := by
  have hlt := ofLeBytes_lt lo
  rw [hlo] at hlt
  rw [ofLeBytes_append, hlo]
  refine ⟨?_, ?_⟩
  · rw [← UInt32.toNat_inj, UInt64.toNat_toUInt32, UInt64.toNat_ofNat', UInt32.toNat_ofNat']
    omega
  · rw [← UInt32.toNat_inj, UInt64.toNat_toUInt32, UInt64.toNat_shiftRight, UInt64.toNat_ofNat',
      UInt32.toNat_ofNat', Nat.shiftRight_eq_div_pow]
    simp only [UInt64.reduceToNat, Nat.reduceMod]
    omega

theorem crc32cU64_feed {bs : List UInt8} (hlen : bs.length = 8) (initVal : UInt32) :
    (crc32cU64 (UInt64.ofNat (ofLeBytes bs)) initVal).toBitVec
      = feed castagnoli initVal.toBitVec bs := by
  obtain ⟨lo, hi, rfl, hlo, hhi⟩ : ∃ lo hi, bs = lo ++ hi ∧ lo.length = 4 ∧ hi.length = 4 :=
    ⟨bs.take 4, bs.drop 4, (List.take_append_drop 4 bs).symm, by simp [hlen], by simp [hlen]⟩
  obtain ⟨hlow, hhigh⟩ := word64_halves hlo hi
  rw [crc32cU64_toBitVec, hlow, hhigh, feed_append, feed_eq_shift _ _ (show _ ≤ 32 by omega),
    feed_eq_shift _ _ (show _ ≤ 32 by omega), hlo, hhi, shift_xor, ← shift_add]
  rfl

/-- The loop feeds the whole words. -/
theorem hashWords_feed {n : Nat} {pd : List UInt8} (hle : 8 * n ≤ pd.length) (initVal : UInt32) :
    (hashWords n pd initVal).1 = pd.drop (8 * n)
      ∧ (hashWords n pd initVal).2.toBitVec
        = feed castagnoli initVal.toBitVec (pd.take (8 * n)) := by
  induction n generalizing pd initVal with
  | zero => exact ⟨rfl, rfl⟩
  | succ n ih =>
      have htake : (pd.take 8).length = 8 := by
        rw [List.length_take]
        omega
      have hdrop : 8 * n ≤ (pd.drop 8).length := by
        rw [List.length_drop]
        omega
      have hword := crc32cU64_feed htake initVal
      obtain ⟨hptr, hval⟩ := ih hdrop (crc32cU64 (word64 pd) initVal)
      refine ⟨?_, ?_⟩
      · rw [hashWords, hptr, List.drop_drop, Nat.mul_succ, Nat.add_comm]
      · rw [hashWords, hval, word64, hword, ← feed_append, Nat.mul_succ, Nat.add_comm,
          List.take_add]

-- ================================================================= the tail

/-- The zeros that fill a string up to a multiple of four bytes. -/
def padding (n : Nat) : Nat := (4 - n % 4) % 4

/-- A disjoint or is a sum. -/
theorem or_eq_add {y : Nat} (a k : Nat) (hy : y < 2 ^ k) : a * 2 ^ k ||| y = a * 2 ^ k + y := by
  rw [Nat.mul_comm]
  exact (Nat.two_pow_add_eq_or_of_lt hy a).symm

/-- The words the cases of the `switch` put together. -/
theorem tail32_eq (b₀ b₁ b₂ : UInt8) :
    b₂.toUInt32 <<< 16 ||| b₁.toUInt32 <<< 8 ||| b₀.toUInt32
      = UInt32.ofNat (ofLeBytes [b₀, b₁, b₂, 0]) := by
  have h₀ := b₀.toNat_lt
  have h₁ := b₁.toNat_lt
  have h₂ := b₂.toNat_lt
  apply UInt32.toNat_inj.mp
  simp only [UInt32.toNat_or, UInt32.toNat_shiftLeft, UInt8.toNat_toUInt32, UInt32.toNat_ofNat',
    UInt32.reduceToNat, Nat.reduceMod, Nat.shiftLeft_eq, ofLeBytes]
  have hhigh : b₂.toNat * 2 ^ 16 % 2 ^ 32 ||| b₁.toNat * 2 ^ 8 % 2 ^ 32
      = (b₂.toNat * 2 ^ 8 + b₁.toNat) * 2 ^ 8 := by
    rw [Nat.mod_eq_of_lt (by omega), or_eq_add _ 16 (by omega)]
    omega
  rw [hhigh, or_eq_add _ 8 (by omega)]
  simp only [UInt8.reduceToNat]
  omega

theorem tail64_eq (b₄ b₅ b₆ : UInt8) {lo : List UInt8} (hlo : lo.length = 4) :
    b₆.toUInt64 <<< 48 ||| b₅.toUInt64 <<< 40 ||| b₄.toUInt64 <<< 32
        ||| (UInt32.ofNat (ofLeBytes lo)).toUInt64
      = UInt64.ofNat (ofLeBytes (lo ++ [b₄, b₅, b₆, 0])) := by
  have h₄ := b₄.toNat_lt
  have h₅ := b₅.toNat_lt
  have h₆ := b₆.toNat_lt
  have hlt := ofLeBytes_lt lo
  rw [hlo] at hlt
  apply UInt64.toNat_inj.mp
  rw [ofLeBytes_append, hlo]
  simp only [UInt64.toNat_or, UInt64.toNat_shiftLeft, UInt8.toNat_toUInt64, UInt64.toNat_ofNat',
    UInt32.toNat_toUInt64, UInt32.toNat_ofNat', UInt64.reduceToNat, Nat.reduceMod,
    Nat.shiftLeft_eq, ofLeBytes]
  have htop : b₆.toNat * 2 ^ 48 % 2 ^ 64 ||| b₅.toNat * 2 ^ 40 % 2 ^ 64
      = (b₆.toNat * 2 ^ 8 + b₅.toNat) * 2 ^ 40 := by
    rw [Nat.mod_eq_of_lt (by omega), or_eq_add _ 48 (by omega)]
    omega
  have hhigh : (b₆.toNat * 2 ^ 8 + b₅.toNat) * 2 ^ 40 ||| b₄.toNat * 2 ^ 32 % 2 ^ 64
      = ((b₆.toNat * 2 ^ 8 + b₅.toNat) * 2 ^ 8 + b₄.toNat) * 2 ^ 32 := by
    rw [or_eq_add _ 40 (by omega)]
    omega
  rw [htop, hhigh, or_eq_add _ 32 (by omega)]
  simp only [UInt8.reduceToNat]
  omega

/-- Each case of the `switch` feeds the bytes that are left. -/
theorem hashTail_feed {bs : List UInt8} (hlen : bs.length < 8) (initVal : UInt32) :
    (hashTail bs (7 - bs.length) initVal).toBitVec
      = feed castagnoli initVal.toBitVec (bs ++ List.replicate (padding bs.length) 0) := by
  match bs with
  | [] => rfl
  | [b₀] =>
      show (crc32cU32 b₀.toUInt32 initVal).toBitVec
        = feed castagnoli initVal.toBitVec [b₀, 0, 0, 0]
      rw [← crc32cU32_feed rfl, ← tail32_eq]
      simp
  | [b₀, b₁] =>
      show (crc32cU32 (b₁.toUInt32 <<< 8 ||| b₀.toUInt32) initVal).toBitVec
        = feed castagnoli initVal.toBitVec [b₀, b₁, 0, 0]
      rw [← crc32cU32_feed rfl, ← tail32_eq]
      simp
  | [b₀, b₁, b₂] =>
      show (crc32cU32 (b₂.toUInt32 <<< 16 ||| b₁.toUInt32 <<< 8 ||| b₀.toUInt32) initVal).toBitVec
        = feed castagnoli initVal.toBitVec [b₀, b₁, b₂, 0]
      rw [← crc32cU32_feed rfl, ← tail32_eq]
  | [b₀, b₁, b₂, b₃] =>
      simp only [List.length_cons, List.length_nil, Nat.reduceAdd]
      show (crc32cU32 (UInt32.ofNat (ofLeBytes [b₀, b₁, b₂, b₃])) initVal).toBitVec
        = feed castagnoli initVal.toBitVec [b₀, b₁, b₂, b₃]
      rw [crc32cU32_feed rfl]
  | [b₀, b₁, b₂, b₃, b₄] =>
      simp only [List.length_cons, List.length_nil, Nat.reduceAdd]
      show (crc32cU64 (b₄.toUInt64 <<< 32
          ||| (UInt32.ofNat (ofLeBytes [b₀, b₁, b₂, b₃])).toUInt64) initVal).toBitVec
        = feed castagnoli initVal.toBitVec ([b₀, b₁, b₂, b₃] ++ [b₄, 0, 0, 0])
      rw [← crc32cU64_feed rfl, ← tail64_eq _ _ _ rfl]
      simp
  | [b₀, b₁, b₂, b₃, b₄, b₅] =>
      simp only [List.length_cons, List.length_nil, Nat.reduceAdd]
      show (crc32cU64 (b₅.toUInt64 <<< 40 ||| b₄.toUInt64 <<< 32
          ||| (UInt32.ofNat (ofLeBytes [b₀, b₁, b₂, b₃])).toUInt64) initVal).toBitVec
        = feed castagnoli initVal.toBitVec ([b₀, b₁, b₂, b₃] ++ [b₄, b₅, 0, 0])
      rw [← crc32cU64_feed rfl, ← tail64_eq _ _ _ rfl]
      simp
  | [b₀, b₁, b₂, b₃, b₄, b₅, b₆] =>
      simp only [List.length_cons, List.length_nil, Nat.reduceAdd]
      show (crc32cU64 (b₆.toUInt64 <<< 48 ||| b₅.toUInt64 <<< 40 ||| b₄.toUInt64 <<< 32
          ||| (UInt32.ofNat (ofLeBytes [b₀, b₁, b₂, b₃])).toUInt64) initVal).toBitVec
        = feed castagnoli initVal.toBitVec ([b₀, b₁, b₂, b₃] ++ [b₄, b₅, b₆, 0])
      rw [← crc32cU64_feed rfl, ← tail64_eq _ _ _ rfl]

-- ============================================================ whole strings

/-- The data with zeros up to a multiple of four bytes. -/
def zeroExtend (data : List UInt8) : List UInt8 :=
  data ++ List.replicate (padding data.length) 0

theorem hashCrc32c_feed {data : List UInt8} (hlen : data.length < 2 ^ 32) (initVal : UInt32) :
    (hashCrc32c data (UInt32.ofNat data.length) initVal).toBitVec
      = feed castagnoli initVal.toBitVec (zeroExtend data) := by
  have hwords : (UInt32.ofNat data.length / 8).toNat = data.length / 8 := by
    rw [UInt32.toNat_div, UInt32.toNat_ofNat_of_lt' hlen]
    rfl
  have hsel : (7 - (UInt32.ofNat data.length &&& 7)).toNat = 7 - data.length % 8 := by
    have hand : (UInt32.ofNat data.length &&& 7).toNat = data.length % 8 := by
      rw [UInt32.toNat_and, UInt32.toNat_ofNat_of_lt' hlen]
      exact Nat.and_two_pow_sub_one_eq_mod data.length 3
    have hle : UInt32.ofNat data.length &&& 7 ≤ 7 := by
      rw [UInt32.le_iff_toNat_le, hand]
      exact Nat.le_of_lt_succ (Nat.mod_lt _ (by decide))
    rw [UInt32.toNat_sub_of_le _ _ hle, hand]
    rfl
  have hle : 8 * (data.length / 8) ≤ data.length := Nat.mul_div_le data.length 8
  obtain ⟨hptr, hval⟩ := hashWords_feed hle initVal
  have hrest : (data.drop (8 * (data.length / 8))).length = data.length % 8 := by
    rw [List.length_drop]
    omega
  have hlt : (data.drop (8 * (data.length / 8))).length < 8 := by omega
  have htail := hashTail_feed hlt (hashWords (data.length / 8) data initVal).2
  have hpad : padding (data.length % 8) = padding data.length := by
    unfold padding
    rw [Nat.mod_mod_of_dvd data.length (by decide : 4 ∣ 8)]
  rw [hrest, hpad, hval, ← feed_append, ← List.append_assoc, List.take_append_drop] at htail
  unfold hashCrc32c
  simp only [hwords, hsel, hptr]
  exact htail

/-- `hash_crc32c` is the register of the zero-extended data; so a string may be
cut after a multiple of eight bytes. -/
theorem hashCrc32c_zeroExtended {data a b : List UInt8} (hdata : data.length < 2 ^ 32)
    (hcut : 8 ∣ a.length) (hab : (a ++ b).length < 2 ^ 32) (v : UInt32) :
    (hashCrc32c data (UInt32.ofNat data.length) v).toBitVec
        = feed castagnoli v.toBitVec (zeroExtend data)
      ∧ hashCrc32c (a ++ b) (UInt32.ofNat (a ++ b).length) v
        = hashCrc32c b (UInt32.ofNat b.length) (hashCrc32c a (UInt32.ofNat a.length) v) := by
  refine ⟨hashCrc32c_feed hdata v, ?_⟩
  have hlen := @List.length_append _ a b
  have hnone : zeroExtend a = a := by
    have hpad : padding a.length = 0 := by
      unfold padding
      omega
    rw [zeroExtend, hpad]
    exact List.append_nil a
  have hsame : zeroExtend (a ++ b) = a ++ zeroExtend b := by
    have hpad : padding (a ++ b).length = padding b.length := by
      unfold padding
      omega
    rw [zeroExtend, zeroExtend, hpad, List.append_assoc]
  apply UInt32.toBitVec_inj.mp
  rw [hashCrc32c_feed hab, hashCrc32c_feed (by omega), hashCrc32c_feed (by omega), hnone, hsame,
    feed_append]

/-- Two strings of eight and five bytes. -/
theorem hashCrc32c_zeroExtended_thirteen :
    (hashCrc32c [1, 2, 3] 3 7).toBitVec = feed castagnoli (7 : UInt32).toBitVec [1, 2, 3, 0]
      ∧ hashCrc32c ([1, 2, 3, 4, 5, 6, 7, 8] ++ [9, 10, 11, 12, 13]) 13 7
        = hashCrc32c [9, 10, 11, 12, 13] 5 (hashCrc32c [1, 2, 3, 4, 5, 6, 7, 8] 8 7) :=
  @hashCrc32c_zeroExtended [1, 2, 3] [1, 2, 3, 4, 5, 6, 7, 8] [9, 10, 11, 12, 13]
    (by decide) (by decide) (by decide) 7

-- ============================================================== the register

/-- The register other than zero that zeros leave alone. -/
def fixedRegister : BitVec 32 := 0xFCA42DAF

theorem bitStep_eq_self_iff (x : BitVec 32) :
    bitStep castagnoli x = x ↔ x = 0 ∨ x = fixedRegister := by
  constructor
  · intro hself
    cases hlow : x.getLsbD 0 with
    | false =>
        left
        exact eq_of_bitStep_eq_self hself (by decide) (hlow.trans (by decide))
    | true =>
        right
        exact eq_of_bitStep_eq_self hself (by decide) (hlow.trans (by decide))
  · rintro (rfl | rfl)
    · decide
    · decide

/-- The sums of shifts that take one, two and three zero bytes to a zero bit. -/
def oneByte : List Nat := [0, 2, 3, 7, 10, 12, 15, 17, 18, 19, 20, 21, 23, 25, 26, 27]
def twoBytes : List Nat :=
  [0, 2, 5, 6, 7, 8, 9, 12, 13, 19, 20, 21, 22, 23, 26, 27, 29, 30]
def threeBytes : List Nat :=
  [0, 1, 2, 3, 4, 5, 7, 8, 9, 11, 13, 15, 19, 23, 25, 26, 29, 30]

theorem shift_bytes_eq_self_iff {k : Nat} (hpos : 0 < k) (hlt : k < 4) (x : BitVec 32) :
    shift castagnoli (8 * k) x = x ↔ x = 0 ∨ x = fixedRegister := by
  rw [← bitStep_eq_self_iff]
  obtain rfl | rfl | rfl : k = 1 ∨ k = 2 ∨ k = 3 := by omega
  · exact shift_eq_self_iff oneByte (by decide +kernel) x
  · exact shift_eq_self_iff twoBytes (by decide +kernel) x
  · exact shift_eq_self_iff threeBytes (by decide +kernel) x

/-- When `hash_crc32c` is the CRC-32C register of the data: the length is a
multiple of four, or the register is one of the two that zeros leave alone. -/
theorem hashCrc32c_eq_feed_iff {data : List UInt8} (hlen : data.length < 2 ^ 32)
    (initVal : UInt32) :
    (hashCrc32c data (UInt32.ofNat data.length) initVal).toBitVec
        = feed castagnoli initVal.toBitVec data
      ↔ 4 ∣ data.length ∨ feed castagnoli initVal.toBitVec data = 0
        ∨ feed castagnoli initVal.toBitVec data = fixedRegister := by
  rw [hashCrc32c_feed hlen, zeroExtend, feed_append, feed_replicate_zero]
  by_cases hdvd : 4 ∣ data.length
  · have hpad : padding data.length = 0 := by
      unfold padding
      omega
    rw [hpad]
    exact iff_of_true rfl (.inl hdvd)
  · have hpad : 0 < padding data.length ∧ padding data.length < 4 := by
      unfold padding
      omega
    rw [shift_bytes_eq_self_iff hpad.1 hpad.2, or_iff_right hdvd]

theorem hashCrc32c_eq_feed_iff_five :
    (hashCrc32c [1, 2, 3, 4, 5] 5 7).toBitVec
        = feed castagnoli (7 : UInt32).toBitVec [1, 2, 3, 4, 5]
      ↔ 4 ∣ 5 ∨ feed castagnoli (7 : UInt32).toBitVec [1, 2, 3, 4, 5] = 0
        ∨ feed castagnoli (7 : UInt32).toBitVec [1, 2, 3, 4, 5] = fixedRegister :=
  @hashCrc32c_eq_feed_iff [1, 2, 3, 4, 5] (by decide) 7

/-- One byte is fed with three zeros behind it. -/
theorem hashCrc32c_ne_feed :
    (hashCrc32c [1] 1 0).toBitVec ≠ feed castagnoli (0 : UInt32).toBitVec [1] := by
  decide +kernel

end PktSender.Hash
