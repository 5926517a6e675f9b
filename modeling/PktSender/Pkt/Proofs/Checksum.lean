/-
The checksum of a generated IPv4 header, against the Internet checksum.

`__checksum_16` folds a CRC the way the one's complement sum is folded, so
modulo `2 ^ 16 - 1` the checksum is the CRC with its sign changed
(`toNat_checksum16`). The rule asks for the sum of the other words with its
sign changed: the header passes where the CRC and the sum happen to be the
same there.
-/
import PktSender.Lib.OnesComplement
import PktSender.Hash.Proofs.Register
import PktSender.Pkt.Proofs.Frame

namespace PktSender.Pkt

open Circular (load)
open Memory (store)
open LittleEndian
open OnesComplement
open Hash (hashCrc32c castagnoli)
open Crc (feed)
open Probe (PktSeq ipprotoUdp)

variable {rteHashCrc : List UInt8 → UInt32 → UInt32 → UInt32}
variable {pkt : PktSeq} {p : ℕ} {m : Mem}

-- ============================================================ the checksum

/-- The two halves of a word added, carries and all. -/
theorem toNat_fold (x : UInt32) :
    ((x &&& (0xffff : UInt32)) + (x >>> (16 : UInt32))).toNat
      = x.toNat % 65536 + x.toNat / 65536 := by
  have hlt : x.toNat < 4294967296 := x.toNat_lt
  have hand : (x &&& (0xffff : UInt32)).toNat = x.toNat % 65536 := by
    rw [UInt32.toNat_and]
    exact Nat.and_two_pow_sub_one_eq_mod x.toNat 16
  have hshift : (x >>> (16 : UInt32)).toNat = x.toNat / 65536 := by
    rw [UInt32.toNat_shiftRight]
    exact Nat.shiftRight_eq_div_pow x.toNat 16
  rw [UInt32.toNat_add, hand, hshift]
  omega

/-- The checksum and the CRC add up to zero in one's complement. -/
theorem toNat_checksum16 (data : List UInt8) (len : UInt32) :
    (checksum16 rteHashCrc data len).toNat + (rteHashCrc data len 0).toNat ≡ 0 [MOD 65535] := by
  have hlt : (rteHashCrc data len 0).toNat < 4294967296 := (rteHashCrc data len 0).toNat_lt
  unfold checksum16
  simp only
  rw [UInt16.toNat_not, UInt32.toNat_toUInt16, toNat_fold, toNat_fold, Nat.ModEq]
  generalize (rteHashCrc data len 0).toNat = c at hlt
  -- after two folds no carry is left
  have hfold : (c % 65536 + c / 65536) % 65536 + (c % 65536 + c / 65536) / 65536 < 2 ^ 16 := by
    omega
  rw [Nat.mod_eq_of_lt hfold, show UInt16.size - 1 = 65535 from rfl]
  omega

-- ============================================================== the header

/-- Whatever the protocol, the IP header is written last. -/
theorem load_ipv4Hdr :
    load (pktSeqConstructPkt rteHashCrc pkt p m) (p + 14) 20
      = ipv4Bytes pkt (checksum16 rteHashCrc (ipv4Bytes pkt 0) 20) := by
  unfold pktSeqConstructPkt
  simp only [constructEthHdr_eq]
  rw [constructIpv4Hdr_eq]
  exact Memory.load_store_self

/-- The checksum is the sixth word of the header. -/
theorem ofLeBytes_ipv4Bytes (cksum : UInt16) :
    ofLeBytes (ipv4Bytes pkt cksum) ≡ ofLeBytes (ipv4Bytes pkt 0) + cksum.toNat [MOD 65535] := by
  have hlt : cksum.toNat < 65536 := cksum.toNat_lt
  -- the word stands at the power `256 ^ 10`, which is one modulo `2 ^ 16 - 1`
  have hword : ofLeBytes (ipv4Bytes pkt cksum)
      = ofLeBytes (ipv4Bytes pkt 0) + cksum.toNat
        + 65535 * (18447025552981295105 * cksum.toNat) := by
    unfold ipv4Bytes
    simp only [ofLeBytes_append, ofLeBytes_leBytes, List.length_append, List.length_cons,
      List.length_nil, leBytes_length, BigEndian.beBytes_length, UInt16.reduceToNat,
      Nat.reduceAdd, Nat.reducePow, Nat.zero_mod, Nat.mul_zero, Nat.add_zero]
    omega
  rw [hword]
  exact Nat.add_mul_mod_self_left _ _ _

/-- The CRC-32C of a header, with a zero for the checksum, and the sum of the
words of that header are the same modulo `2 ^ 16 - 1`. -/
def CrcIsSum (pkt : PktSeq) : Prop :=
  (feed castagnoli 0 (ipv4Bytes pkt 0)).toNat
    ≡ ((wordsLe (ipv4Bytes pkt 0)).map UInt16.toNat).sum [MOD 65535]

instance (pkt : PktSeq) : Decidable (CrcIsSum pkt) := inferInstanceAs (Decidable (Nat.ModEq _ _ _))

/-- Twenty bytes are whole words, so `hash_crc32c` is the register. -/
theorem hashCrc32c_ipv4Bytes :
    (hashCrc32c (ipv4Bytes pkt 0) 20 0).toNat = (feed castagnoli 0 (ipv4Bytes pkt 0)).toNat := by
  have hlen : (ipv4Bytes pkt 0).length < 2 ^ 32 := by
    rw [length_ipv4Bytes]
    decide
  have hfeed := Hash.hashCrc32c_feed hlen 0
  have hwhole : Hash.zeroExtend (ipv4Bytes pkt 0) = ipv4Bytes pkt 0 := by
    rw [Hash.zeroExtend, length_ipv4Bytes]
    exact List.append_nil _
  rw [length_ipv4Bytes, hwhole] at hfeed
  exact congrArg BitVec.toNat hfeed

theorem even_length_ipv4Bytes (cksum : UInt16) : 2 ∣ (ipv4Bytes pkt cksum).length := by
  rw [length_ipv4Bytes]
  exact ⟨10, rfl⟩

theorem dvd_sum_ipv4Bytes_iff :
    65535 ∣ ((wordsLe (ipv4Bytes pkt
        (checksum16 hashCrc32c (ipv4Bytes pkt 0) 20))).map UInt16.toNat).sum
      ↔ CrcIsSum pkt := by
  have hck := @toNat_checksum16 hashCrc32c (ipv4Bytes pkt 0) 20
  have hzero := sum_wordsLe_modEq (@even_length_ipv4Bytes pkt 0)
  generalize checksum16 hashCrc32c (ipv4Bytes pkt 0) 20 = cksum at hck
  have hsum := (sum_wordsLe_modEq (@even_length_ipv4Bytes pkt cksum)).trans
    (ofLeBytes_ipv4Bytes cksum)
  unfold CrcIsSum
  rw [hashCrc32c_ipv4Bytes, Nat.ModEq] at hck
  rw [Nat.ModEq] at hsum hzero ⊢
  rw [Nat.dvd_iff_mod_eq_zero, hsum]
  omega

/-- In either byte order; the first word of the header is not zero. -/
theorem onesSum_ipv4Bytes_iff :
    (onesSum (wordsBe (ipv4Bytes pkt (checksum16 hashCrc32c (ipv4Bytes pkt 0) 20))) = 0xFFFF
        ↔ CrcIsSum pkt)
      ∧ (onesSum (wordsLe (ipv4Bytes pkt (checksum16 hashCrc32c (ipv4Bytes pkt 0) 20))) = 0xFFFF
        ↔ CrcIsSum pkt) := by
  refine ⟨?_, ?_⟩
  · rw [onesSum_eq_ones_iff, dvd_sum_words_swap, dvd_sum_ipv4Bytes_iff]
    exact and_iff_left ⟨_, List.mem_cons_self, by decide⟩
  · rw [onesSum_eq_ones_iff, dvd_sum_ipv4Bytes_iff]
    exact and_iff_left ⟨_, List.mem_cons_self, by decide⟩

/-- A generated header passes the Internet checksum rule, in whichever order
its words are read, when its CRC-32C is the sum of its words modulo
`2 ^ 16 - 1`, and only then. -/
theorem checksum_valid_iff (pkt : PktSeq) (p : ℕ) (m : Mem) :
    (onesSum (wordsBe (load (pktSeqConstructPkt hashCrc32c pkt p m) (p + 14) 20)) = 0xFFFF
        ↔ CrcIsSum pkt)
      ∧ (onesSum (wordsLe (load (pktSeqConstructPkt hashCrc32c pkt p m) (p + 14) 20)) = 0xFFFF
        ↔ CrcIsSum pkt) := by
  rw [load_ipv4Hdr]
  exact onesSum_ipv4Bytes_iff

/-- UDP from 192.168.0.12 to 192.168.0.21, in frames of 60 bytes. -/
def udpSeq : PktSeq :=
  { srcMac := fun _ => 0, dstMac := fun _ => 0xFF, srcIp := 0xC0A8000C, dstIp := 0xC0A80015
    proto := ipprotoUdp, srcPort := 9312, dstPort := 9321, pktLen := 60 }

theorem checksum_not_valid :
    onesSum (wordsBe (load (pktSeqConstructPkt hashCrc32c udpSeq 0 (fun _ => 0)) 14 20)) ≠ 0xFFFF
      ∧ onesSum (wordsLe (load (pktSeqConstructPkt hashCrc32c udpSeq 0 (fun _ => 0)) 14 20))
        ≠ 0xFFFF := by
  have hheader := @load_ipv4Hdr hashCrc32c udpSeq 0 (fun _ => 0)
  rw [Nat.zero_add] at hheader
  rw [hheader]
  decide +kernel

end PktSender.Pkt
