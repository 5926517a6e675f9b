/-
The Ethernet addresses of probe frames and of data frames.

A data frame has its addresses where Ethernet has them, the destination
first, whatever its protocol (`macAt_construct`). `struct pkt_fmt` has the
source first, so a probe frame has them the other way round
(`macAt_probe`).
-/
import PktSender.Pkt.Proofs.Frame

namespace PktSender.Pkt

open Memory (store)
open Hash (hashCrc32c)
open Probe (PktSeq EtherAddr ProbeState PktFmt constructProbe fillProbe ipprotoUdp)

variable {rteHashCrc : List UInt8 → UInt32 → UInt32 → UInt32}
variable {pkt : PktSeq} {p : ℕ} {m : Mem}

-- ============================================================== data frames

theorem macAt_congr {m' : Mem} (h : ∀ i < 6, m' (p + i) = m (p + i)) : macAt m' p = macAt m p :=
  funext fun i => h i.val i.isLt

/-- Whatever the protocol, nothing is written to the Ethernet header after it. -/
theorem construct_ethHdr {i : ℕ} (hi : i < p + 14) :
    pktSeqConstructPkt rteHashCrc pkt p m i = store m p (ethBytes pkt) i := by
  unfold pktSeqConstructPkt
  simp only [constructEthHdr_eq]
  rw [constructIpv4Hdr_eq, Memory.store_outside (.inl hi)]
  split
  next =>
    obtain ⟨cksum, hudp⟩ := @constructUdpHdr_eq rteHashCrc pkt (p + 14) (store m p (ethBytes pkt))
    rw [hudp, Memory.store_outside (.inl hi)]
  next =>
    split
    next =>
      obtain ⟨cksum, htcp⟩ :=
        @constructTcpHdr_eq rteHashCrc pkt (p + 14) (store m p (ethBytes pkt))
      rw [htcp, Memory.store_outside (.inl hi)]
    next => rfl

/-- A traffic frame starts with the destination, -/
theorem macAt_construct :
    macAt (pktSeqConstructPkt rteHashCrc pkt p m) (p + EtherHdr.dAddr) = pkt.dstMac
      ∧ macAt (pktSeqConstructPkt rteHashCrc pkt p m) (p + EtherHdr.sAddr) = pkt.srcMac := by
  have hdst : macAt (store m p (ethBytes pkt)) (p + 0) = pkt.dstMac :=
    macAt_store (by rw [length_ethBytes]; decide) rfl
  have hsrc : macAt (store m p (ethBytes pkt)) (p + 6) = pkt.srcMac :=
    macAt_store (by rw [length_ethBytes]; decide) rfl
  refine ⟨?_, ?_⟩
  · rw [← hdst]
    exact macAt_congr fun i hi => construct_ethHdr (by simp only [EtherHdr.dAddr]; omega)
  · rw [← hsrc]
    exact macAt_congr fun i hi => construct_ethHdr (by simp only [EtherHdr.sAddr]; omega)

-- ============================================================= probe frames

theorem length_bytes (fmt : PktFmt) : fmt.bytes.length = 32 := by
  simp [PktFmt.bytes]

/-- and a probe frame with the source. -/
theorem macAt_probe (fmt : PktFmt) :
    macAt (store m p fmt.bytes) (p + EtherHdr.dAddr) = fmt.srcMac
      ∧ macAt (store m p fmt.bytes) (p + EtherHdr.sAddr) = fmt.dstMac := by
  refine ⟨?_, ?_⟩
  · exact macAt_store (by rw [length_bytes]; decide) rfl
  · exact macAt_store (by rw [length_bytes]; decide) rfl

/-- The frame that is built gets the configured addresses. -/
theorem constructProbe_data {cfg : Probe.Cfg} {s : ProbeState} {n : ℕ} (hn : n ∈ s.probeMp)
    (i : UInt8) :
    ∃ s', constructProbe cfg s i (some n) = some (s', 0)
      ∧ (s'.mem n).data = fillProbe (s.probeList i) := by
  refine ⟨_, by rw [constructProbe, if_pos hn], ?_⟩
  simp [ProbeState.setCtl, ProbeState.setMbuf]

-- ============================================================= both of them

/-- Two frames that carry the addresses of a configuration where Ethernet has
them; the one is at `q`, the other at `p`. -/
structure AddressedAlike (pkt : PktSeq) (probe : Mem) (q : ℕ) (data : Mem) (p : ℕ) : Prop where
  dstEq : macAt probe (q + EtherHdr.dAddr) = macAt data (p + EtherHdr.dAddr)
  srcEq : macAt probe (q + EtherHdr.sAddr) = macAt data (p + EtherHdr.sAddr)
  dst : macAt data (p + EtherHdr.dAddr) = pkt.dstMac
  src : macAt data (p + EtherHdr.sAddr) = pkt.srcMac

theorem addressedAlike_fillProbe {ctl : Probe.ProbeCtl} {q : ℕ} {m' : Mem} :
    AddressedAlike ctl.pktConfigure (store m q (fillProbe ctl).bytes) q
        (pktSeqConstructPkt rteHashCrc ctl.pktConfigure p m') p
      ↔ ctl.pktConfigure.srcMac = ctl.pktConfigure.dstMac := by
  obtain ⟨hprobeDst, hprobeSrc⟩ := @macAt_probe q m (fillProbe ctl)
  obtain ⟨hdst, hsrc⟩ := @macAt_construct rteHashCrc ctl.pktConfigure p m'
  constructor
  · intro h
    rw [← hdst, ← h.dstEq, hprobeDst]
    rfl
  · intro hsame
    refine ⟨?_, ?_, hdst, hsrc⟩
    · rw [hprobeDst, hdst]
      exact hsame
    · rw [hprobeSrc, hsrc]
      exact hsame.symm

/-- A probe frame and a data frame of one configuration are addressed alike
only where the two addresses are the same. -/
theorem addressed_alike_iff {s : ProbeState} {n : ℕ} (hn : n ∈ s.probeMp) (cfg : Probe.Cfg)
    (i : UInt8) (p q : ℕ) (m m' : Mem) :
    ∃ s', constructProbe cfg s i (some n) = some (s', 0)
      ∧ (AddressedAlike (s.probeList i).pktConfigure (store m q (s'.mem n).data.bytes) q
          (pktSeqConstructPkt rteHashCrc (s.probeList i).pktConfigure p m') p
        ↔ (s.probeList i).pktConfigure.srcMac = (s.probeList i).pktConfigure.dstMac) := by
  obtain ⟨s', hs', hdata⟩ := @constructProbe_data cfg s n hn i
  refine ⟨s', hs', ?_⟩
  rw [hdata]
  exact addressedAlike_fillProbe

/-- One port that sends from 10:11:12:13:14:15 to 20:21:22:23:24:25. -/
def onePort : Probe.Cfg :=
  { nbPorts := 1, portIsEnabled := fun _ => true
    portGetPktSeq := fun _ =>
      { srcMac := fun i => 0x10 + UInt8.ofNat i, dstMac := fun i => 0x20 + UInt8.ofNat i
        srcIp := 0xC0A8000C, dstIp := 0xC0A80015, proto := ipprotoUdp
        srcPort := 9312, dstPort := 9321, pktLen := 64 }
    pktTxIeee1588Tmst := 0x8000000000000 }

/-- Before its first probe; two mbufs are left. -/
def firstProbe : ProbeState :=
  { probeList := fun i => Probe.initLocalProbe onePort i Probe.txqLatency
    mem := fun _ => ⟨0, 0, 0, fillProbe .zero⟩, refcnt := fun _ => 0, probeMp := [0, 1]
    driver := [], pc := .next 0, accepted := [] }

theorem addressed_alike_iff_first :
    ∃ s', constructProbe onePort firstProbe 0 (some 1) = some (s', 0)
      ∧ (AddressedAlike (firstProbe.probeList 0).pktConfigure
          (store (fun _ => 0) 64 (s'.mem 1).data.bytes) 64
          (pktSeqConstructPkt hashCrc32c (firstProbe.probeList 0).pktConfigure 0 fun _ => 0) 0
        ↔ (firstProbe.probeList 0).pktConfigure.srcMac
          = (firstProbe.probeList 0).pktConfigure.dstMac) :=
  @addressed_alike_iff hashCrc32c firstProbe 1 (by decide) onePort 0 0 64 (fun _ => 0)
    (fun _ => 0)

/-- The probe goes to 10:11:12:13:14:15. -/
theorem not_addressed_alike :
    ∃ s', constructProbe onePort firstProbe 0 (some 1) = some (s', 0)
      ∧ ¬ AddressedAlike (firstProbe.probeList 0).pktConfigure
          (store (fun _ => 0) 64 (s'.mem 1).data.bytes) 64
          (pktSeqConstructPkt hashCrc32c (firstProbe.probeList 0).pktConfigure 0 fun _ => 0)
          0 := by
  have hn : 1 ∈ firstProbe.probeMp := by decide
  obtain ⟨s', hs', hdata⟩ := @constructProbe_data onePort firstProbe 1 hn 0
  refine ⟨s', hs', ?_⟩
  rw [hdata, addressedAlike_fillProbe]
  intro hsame
  exact absurd (congrFun hsame 0) (by decide)

end PktSender.Pkt
