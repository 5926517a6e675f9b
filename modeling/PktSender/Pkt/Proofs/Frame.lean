/-
A packet template says what its packet sequence does.

Every function of the construction stores one string (`constructEthHdr_eq`,
`constructUdpHdr_eq`, `constructTcpHdr_eq`, `constructIpv4Hdr_eq`): it clears
its region, or finds what it does not write, and replaces the parts. The IP
header goes over the pseudo header, so the frame is again one string
(`construct_udp`, `construct_tcp`), and a receiver that looks for the fields
where the protocols have them (`readFrame`) takes its parts from there.
-/
import PktSender.Pkt.Basic
import PktSender.Hash.Basic

namespace PktSender.Pkt

open Circular (load)
open Memory (store patch storeParts patchParts)
open LittleEndian (leBytes ofLeBytes)
open BigEndian (beBytes ofBeBytes)
open Probe (PktSeq EtherAddr ipprotoUdp rteCpuToBe16)

-- ========================================================== the byte orders

theorem toNat_rteCpuToBe16 (x : UInt16) :
    (rteCpuToBe16 x).toNat = BigEndian.swap 2 x.toNat := by
  have hlt : x.toNat < 65536 := x.toNat_lt
  have hshift : x.toNat <<< 8 % 65536 = (x.toNat % 256) <<< 8 := by
    rw [Nat.shiftLeft_eq, Nat.shiftLeft_eq]
    omega
  have hor : (rteCpuToBe16 x).toNat = (x.toNat % 256) <<< 8 ||| x.toNat >>> 8 := by
    rw [← hshift]
    rfl
  have hhigh : x.toNat >>> 8 < 2 ^ 8 := by
    rw [Nat.shiftRight_eq_div_pow]
    omega
  rw [hor, ← Nat.shiftLeft_add_eq_or_of_lt hhigh, Nat.shiftLeft_eq, Nat.shiftRight_eq_div_pow]
  show _ = ofLeBytes [UInt8.ofNat (x.toNat / 256), UInt8.ofNat x.toNat]
  simp only [ofLeBytes, UInt8.toNat_ofNat']
  omega

/-- A swapped field is stored in network byte order. -/
theorem leBytes_rteCpuToBe16 (x : UInt16) :
    leBytes 2 (rteCpuToBe16 x).toNat = beBytes 2 x.toNat := by
  rw [toNat_rteCpuToBe16, BigEndian.leBytes_swap]

theorem leBytes_rteCpuToBe32 (x : UInt32) :
    leBytes 4 (rteCpuToBe32 x).toNat = beBytes 4 x.toNat := by
  have hlt : BigEndian.swap 4 x.toNat < 2 ^ 32 := BigEndian.swap_lt 4 x.toNat
  rw [rteCpuToBe32, UInt32.toNat_ofNat', Nat.mod_eq_of_lt hlt, BigEndian.leBytes_swap]

-- ============================================================== the headers

variable {rteHashCrc : List UInt8 → UInt32 → UInt32 → UInt32}
variable {pkt : PktSeq} {p : ℕ} {m : Mem}

/-- The IP total length and the length of what is behind the IP header. -/
def ipLen (pkt : PktSeq) : UInt16 := pkt.pktLen - 14
def l4Len (pkt : PktSeq) : UInt16 := pkt.pktLen - 14 - 20

def ethBytes (pkt : PktSeq) : List UInt8 :=
  List.ofFn pkt.dstMac ++ List.ofFn pkt.srcMac ++ beBytes 2 etherTypeIpv4.toNat

def ipv4Bytes (pkt : PktSeq) (cksum : UInt16) : List UInt8 :=
  [ipVhlDef, 0] ++ beBytes 2 (ipLen pkt).toNat ++ [0, 0, 0, 0] ++ [ipTtlDef, pkt.proto]
    ++ leBytes 2 cksum.toNat ++ beBytes 4 pkt.srcIp.toNat ++ beBytes 4 pkt.dstIp.toNat

def udpBytes (pkt : PktSeq) (cksum : UInt16) : List UInt8 :=
  beBytes 2 pkt.srcPort.toNat ++ beBytes 2 pkt.dstPort.toNat ++ beBytes 2 (l4Len pkt).toNat
    ++ leBytes 2 cksum.toNat

def tcpBytes (pkt : PktSeq) (cksum : UInt16) : List UInt8 :=
  beBytes 2 pkt.srcPort.toNat ++ beBytes 2 pkt.dstPort.toNat ++ beBytes 4 pktSeqTcpSeq.toNat
    ++ beBytes 4 pktSeqTcpAck.toNat ++ [0x50, pktSeqTcpFlags] ++ beBytes 2 pktSeqTcpWindow.toNat
    ++ leBytes 2 cksum.toNat ++ [0, 0]

/-- The three headers. -/
def frameBytes (pkt : PktSeq) (cksum : UInt16) (l4 : List UInt8) : List UInt8 :=
  ethBytes pkt ++ (ipv4Bytes pkt cksum ++ l4)

/-- The IP header of a checksum below IP. -/
def pseudoBytes (pkt : PktSeq) (proto : UInt8) : List UInt8 :=
  [0, 0] ++ beBytes 2 (l4Len pkt).toNat ++ [0, 0, 0, 0] ++ [0, proto] ++ [0, 0]
    ++ beBytes 4 pkt.srcIp.toNat ++ beBytes 4 pkt.dstIp.toNat

/-- The fields of an IPv4 header but the checksum, in the order they are written. -/
def ipv4Parts (pkt : PktSeq) : List (ℕ × List UInt8) :=
  [(Ipv4Hdr.versionIhl, [ipVhlDef]), (Ipv4Hdr.typeOfService, [0]),
    (Ipv4Hdr.fragmentOffset, [0, 0]), (Ipv4Hdr.timeToLive, [ipTtlDef]),
    (Ipv4Hdr.packetId, [0, 0]), (Ipv4Hdr.srcAddr, beBytes 4 pkt.srcIp.toNat),
    (Ipv4Hdr.dstAddr, beBytes 4 pkt.dstIp.toNat), (Ipv4Hdr.nextProtoId, [pkt.proto]),
    (Ipv4Hdr.totalLength, beBytes 2 (ipLen pkt).toNat)]

theorem ipv4Parts_fit : ∀ part ∈ ipv4Parts pkt, part.1 + part.2.length ≤ 20 := by
  simp [ipv4Parts]
  decide

/-- The IPv4 header is one string; its checksum is taken with a zero in its place. -/
theorem constructIpv4Hdr_eq :
    constructIpv4Hdr rteHashCrc pkt p m
      = store m p (ipv4Bytes pkt (checksum16 rteHashCrc (ipv4Bytes pkt 0) 20)) := by
  have hparts : storeParts (memset0 m p 20) p (ipv4Parts pkt)
      = store m p (ipv4Bytes pkt 0) := Memory.storeParts_store ipv4Parts_fit
  have hfields : constructIpv4Hdr rteHashCrc pkt p m
      = store16 (storeParts (memset0 m p 20) p (ipv4Parts pkt)) (p + Ipv4Hdr.hdrChecksum)
          (checksum16 rteHashCrc (load (storeParts (memset0 m p 20) p (ipv4Parts pkt)) p 20)
            20) := by
    unfold constructIpv4Hdr
    simp only [store16, store32, leBytes_rteCpuToBe16, leBytes_rteCpuToBe32]
    rfl
  have hload : load (store m p (ipv4Bytes pkt 0)) p 20 = ipv4Bytes pkt 0 :=
    Memory.load_store_self
  rw [hfields, hparts, hload]
  exact Memory.store_patch (by simp [ipv4Bytes]; decide)

/-- The fields of the pseudo header, and those of the UDP header but the checksum. -/
def udpParts (pkt : PktSeq) : List (ℕ × List UInt8) :=
  [(Ipv4Hdr.nextProtoId, [ipprotoUdp]), (Ipv4Hdr.totalLength, beBytes 2 (l4Len pkt).toNat),
    (Ipv4Hdr.srcAddr, beBytes 4 pkt.srcIp.toNat), (Ipv4Hdr.dstAddr, beBytes 4 pkt.dstIp.toNat),
    (Ipv4Hdr.size + UdpHdr.srcPort, beBytes 2 pkt.srcPort.toNat),
    (Ipv4Hdr.size + UdpHdr.dstPort, beBytes 2 pkt.dstPort.toNat),
    (Ipv4Hdr.size + UdpHdr.dgramLen, beBytes 2 (l4Len pkt).toNat)]

theorem udpParts_fit : ∀ part ∈ udpParts pkt, part.1 + part.2.length ≤ 28 := by
  simp [udpParts]
  decide

/-- The stores of `__construct_udp_hdr` side by side: the pseudo header and the
header without its checksum. -/
theorem udpParts_eq : patchParts (List.replicate 28 0) (udpParts pkt)
    = pseudoBytes pkt ipprotoUdp ++ udpBytes pkt 0 := by
  simp [patchParts, patch, udpParts, pseudoBytes, udpBytes, beBytes, leBytes, List.replicate,
    Ipv4Hdr.nextProtoId, Ipv4Hdr.totalLength, Ipv4Hdr.srcAddr, Ipv4Hdr.dstAddr, Ipv4Hdr.size,
    UdpHdr.srcPort, UdpHdr.dstPort, UdpHdr.dgramLen]

/-- With the checksum they are one store. -/
theorem constructUdpHdr_eq :
    ∃ cksum, constructUdpHdr rteHashCrc pkt p m
      = store m p (pseudoBytes pkt ipprotoUdp ++ udpBytes pkt cksum) := by
  have hparts : storeParts (memset0 m p 28) p (udpParts pkt)
      = store m p (pseudoBytes pkt ipprotoUdp ++ udpBytes pkt 0) := by
    rw [memset0, Memory.storeParts_store udpParts_fit, udpParts_eq]
  obtain ⟨cksum, hfields⟩ : ∃ cksum, constructUdpHdr rteHashCrc pkt p m
      = store16 (storeParts (memset0 m p 28) p (udpParts pkt))
          (p + (Ipv4Hdr.size + UdpHdr.dgramCksum)) cksum := by
    unfold constructUdpHdr
    simp only [store16, store32, leBytes_rteCpuToBe16, leBytes_rteCpuToBe32, Nat.add_assoc]
    exact ⟨_, rfl⟩
  refine ⟨cksum, ?_⟩
  rw [hfields, hparts]
  exact Memory.store_patch (by simp [pseudoBytes, udpBytes]; decide)

def tcpParts (pkt : PktSeq) : List (ℕ × List UInt8) :=
  [(Ipv4Hdr.size + TcpHdr.srcPort, beBytes 2 pkt.srcPort.toNat),
    (Ipv4Hdr.size + TcpHdr.dstPort, beBytes 2 pkt.dstPort.toNat),
    (Ipv4Hdr.size + TcpHdr.sentSeq, beBytes 4 pktSeqTcpSeq.toNat),
    (Ipv4Hdr.size + TcpHdr.recvAck, beBytes 4 pktSeqTcpAck.toNat),
    (Ipv4Hdr.size + TcpHdr.dataOff, [0x50]),
    (Ipv4Hdr.size + TcpHdr.tcpFlags, [pktSeqTcpFlags]),
    (Ipv4Hdr.size + TcpHdr.rxWin, beBytes 2 pktSeqTcpWindow.toNat),
    (Ipv4Hdr.size + TcpHdr.tcpUrp, [0, 0]),
    (Ipv4Hdr.srcAddr, beBytes 4 pkt.srcIp.toNat), (Ipv4Hdr.dstAddr, beBytes 4 pkt.dstIp.toNat),
    (Ipv4Hdr.totalLength, beBytes 2 (l4Len pkt).toNat), (Ipv4Hdr.nextProtoId, [ipprotoTcp])]

theorem tcpParts_fit : ∀ part ∈ tcpParts pkt, part.1 + part.2.length ≤ 40 := by
  simp [tcpParts]
  decide

/-- The same for TCP. -/
theorem tcpParts_eq : patchParts (List.replicate 40 0) (tcpParts pkt)
    = pseudoBytes pkt ipprotoTcp ++ tcpBytes pkt 0 := by
  simp [patchParts, patch, tcpParts, pseudoBytes, tcpBytes, beBytes, leBytes, List.replicate,
    Ipv4Hdr.nextProtoId, Ipv4Hdr.totalLength, Ipv4Hdr.srcAddr, Ipv4Hdr.dstAddr, Ipv4Hdr.size,
    TcpHdr.srcPort, TcpHdr.dstPort, TcpHdr.sentSeq, TcpHdr.recvAck, TcpHdr.dataOff,
    TcpHdr.tcpFlags, TcpHdr.rxWin, TcpHdr.tcpUrp]

theorem constructTcpHdr_eq :
    ∃ cksum, constructTcpHdr rteHashCrc pkt p m
      = store m p (pseudoBytes pkt ipprotoTcp ++ tcpBytes pkt cksum) := by
  have hparts : storeParts (memset0 m p 40) p (tcpParts pkt)
      = store m p (pseudoBytes pkt ipprotoTcp ++ tcpBytes pkt 0) := by
    rw [memset0, Memory.storeParts_store tcpParts_fit, tcpParts_eq]
  obtain ⟨cksum, hfields⟩ : ∃ cksum, constructTcpHdr rteHashCrc pkt p m
      = store16 (storeParts (memset0 m p 40) p (tcpParts pkt))
          (p + (Ipv4Hdr.size + TcpHdr.cksum)) cksum := by
    unfold constructTcpHdr
    simp only [store16, store32, leBytes_rteCpuToBe16, leBytes_rteCpuToBe32, Nat.add_assoc]
    exact ⟨_, rfl⟩
  refine ⟨cksum, ?_⟩
  rw [hfields, hparts]
  exact Memory.store_patch (by simp [pseudoBytes, tcpBytes]; decide)

/-- The fields of the Ethernet header, over whatever was there. -/
theorem constructEthHdr_eq :
    constructEthHdr pkt p m = (store m p (ethBytes pkt), p + 14) := by
  have hfit : ∀ part ∈ [(EtherHdr.sAddr, List.ofFn pkt.srcMac),
      (EtherHdr.dAddr, List.ofFn pkt.dstMac), (EtherHdr.etherType, beBytes 2 etherTypeIpv4.toNat)],
      part.1 + part.2.length ≤ (load m p 14).length := by
    simp
    decide
  have hparts := @Memory.storeParts_store _ m p _ _ hfit
  rw [Memory.store_load] at hparts
  unfold constructEthHdr
  simp only [store16, etherAddrCopy, leBytes_rteCpuToBe16]
  exact congrArg (·, p + 14) hparts

-- ================================================================ the frame

@[simp] theorem length_ethBytes : (ethBytes pkt).length = 14 := by
  simp [ethBytes]

@[simp] theorem length_ipv4Bytes (cksum : UInt16) : (ipv4Bytes pkt cksum).length = 20 := by
  simp [ipv4Bytes]

@[simp] theorem length_pseudoBytes (proto : UInt8) : (pseudoBytes pkt proto).length = 20 := by
  simp [pseudoBytes]

@[simp] theorem length_udpBytes (cksum : UInt16) : (udpBytes pkt cksum).length = 8 := by
  simp [udpBytes]

@[simp] theorem length_tcpBytes (cksum : UInt16) : (tcpBytes pkt cksum).length = 20 := by
  simp [tcpBytes]

theorem not_udp (hproto : pkt.proto = ipprotoTcp) : ¬ pkt.proto = ipprotoUdp := by
  rw [hproto]
  decide

/-- The IP header over the pseudo header, behind the Ethernet header. -/
theorem store_headers {proto : UInt8} {cksum : UInt16} {l4 : List UInt8} :
    store (store (store m p (ethBytes pkt)) (p + 14) (pseudoBytes pkt proto ++ l4)) (p + 14)
        (ipv4Bytes pkt cksum)
      = store m p (frameBytes pkt cksum l4) := by
  have hsame : (ipv4Bytes pkt cksum).length = (pseudoBytes pkt proto).length := by simp
  rw [Memory.store_over hsame, ← length_ethBytes, Memory.store_append, frameBytes]

/-- The whole frame is one string. -/
theorem construct_udp (hproto : pkt.proto = ipprotoUdp) :
    ∃ cksum, pktSeqConstructPkt rteHashCrc pkt p m
      = store m p (frameBytes pkt (checksum16 rteHashCrc (ipv4Bytes pkt 0) 20)
          (udpBytes pkt cksum)) := by
  obtain ⟨cksum, hudp⟩ := @constructUdpHdr_eq rteHashCrc pkt (p + 14) (store m p (ethBytes pkt))
  refine ⟨cksum, ?_⟩
  unfold pktSeqConstructPkt
  simp only [constructEthHdr_eq]
  rw [if_pos hproto, hudp, constructIpv4Hdr_eq, store_headers]

/-- The whole frame is one store; that of UDP is above. -/
theorem construct_tcp (hproto : pkt.proto = ipprotoTcp) :
    ∃ cksum, pktSeqConstructPkt rteHashCrc pkt p m
      = store m p (frameBytes pkt (checksum16 rteHashCrc (ipv4Bytes pkt 0) 20)
          (tcpBytes pkt cksum)) := by
  obtain ⟨cksum, htcp⟩ := @constructTcpHdr_eq rteHashCrc pkt (p + 14) (store m p (ethBytes pkt))
  refine ⟨cksum, ?_⟩
  unfold pktSeqConstructPkt
  simp only [constructEthHdr_eq]
  rw [if_neg (not_udp hproto), if_pos hproto, htcp, constructIpv4Hdr_eq, store_headers]

-- ================================================================ a receiver

/-- Fields in network byte order. -/
def netUInt16 (m : Mem) (p : ℕ) : UInt16 := UInt16.ofNat (ofBeBytes (load m p 2))
def netUInt32 (m : Mem) (p : ℕ) : UInt32 := UInt32.ofNat (ofBeBytes (load m p 4))

def macAt (m : Mem) (p : ℕ) : EtherAddr := fun i => m (p + i)

/-- The header behind the IP header. -/
inductive L4 where
  | udp (srcPort dstPort len : UInt16)
  /-- the data offset counts words -/
  | tcp (srcPort dstPort : UInt16) (dataOff : UInt8)
deriving DecidableEq

/-- What a receiver reads from a frame. -/
structure FrameView where
  dstMac : EtherAddr
  srcMac : EtherAddr
  etherType : UInt16
  versionIhl : UInt8
  totalLength : UInt16
  proto : UInt8
  srcIp : UInt32
  dstIp : UInt32
  l4 : L4

def readL4 (m : Mem) (p : ℕ) (proto : UInt8) : Option L4 :=
  if proto = ipprotoUdp then
    some (.udp (netUInt16 m (p + UdpHdr.srcPort)) (netUInt16 m (p + UdpHdr.dstPort))
      (netUInt16 m (p + UdpHdr.dgramLen)))
  else if proto = ipprotoTcp then
    some (.tcp (netUInt16 m (p + TcpHdr.srcPort)) (netUInt16 m (p + TcpHdr.dstPort))
      (m (p + TcpHdr.dataOff) >>> 4))
  else none

/-- Read the frame at an address; the header length of IP says where the next
header is. -/
def readFrame (m : Mem) (p : ℕ) : Option FrameView :=
  let ip := p + EtherHdr.size
  let versionIhl := m (ip + Ipv4Hdr.versionIhl)
  let proto := m (ip + Ipv4Hdr.nextProtoId)
  (readL4 m (ip + 4 * (versionIhl &&& 0x0F).toNat) proto).map fun l4 =>
    { dstMac := macAt m (p + EtherHdr.dAddr)
      srcMac := macAt m (p + EtherHdr.sAddr)
      etherType := netUInt16 m (p + EtherHdr.etherType)
      versionIhl := versionIhl
      totalLength := netUInt16 m (ip + Ipv4Hdr.totalLength)
      proto := proto
      srcIp := netUInt32 m (ip + Ipv4Hdr.srcAddr)
      dstIp := netUInt32 m (ip + Ipv4Hdr.dstAddr)
      l4 := l4 }

section Read

variable {bs : List UInt8} {k : ℕ}

/-- What a reader of the wire finds in a store. -/
theorem netUInt16_store {x : UInt16} (hle : k + 2 ≤ bs.length)
    (hx : (bs.drop k).take 2 = beBytes 2 x.toNat) : netUInt16 (store m p bs) (p + k) = x := by
  have hlt : x.toNat < 256 ^ 2 := x.toNat_lt
  rw [netUInt16, Memory.load_store hle, hx, BigEndian.ofBeBytes_beBytes, Nat.mod_eq_of_lt hlt,
    UInt16.ofNat_toNat]

theorem netUInt32_store {x : UInt32} (hle : k + 4 ≤ bs.length)
    (hx : (bs.drop k).take 4 = beBytes 4 x.toNat) : netUInt32 (store m p bs) (p + k) = x := by
  have hlt : x.toNat < 256 ^ 4 := x.toNat_lt
  rw [netUInt32, Memory.load_store hle, hx, BigEndian.ofBeBytes_beBytes, Nat.mod_eq_of_lt hlt,
    UInt32.ofNat_toNat]

theorem macAt_store {addr : EtherAddr} (hle : k + 6 ≤ bs.length)
    (haddr : (bs.drop k).take 6 = List.ofFn addr) : macAt (store m p bs) (p + k) = addr := by
  funext i
  have hload := (@Memory.load_store _ m p k 6 bs hle).trans haddr
  have hi : i.val < (load (store m p bs) (p + k) 6).length := by
    rw [Circular.load_length]
    exact i.isLt
  have hget := List.getElem_of_eq hload hi
  rw [Circular.load_getElem, List.getElem_ofFn] at hget
  exact hget

end Read

/-- What a receiver is to read. -/
def viewOf (pkt : PktSeq) (l4 : L4) : FrameView :=
  { dstMac := pkt.dstMac, srcMac := pkt.srcMac, etherType := etherTypeIpv4
    versionIhl := 0x45, totalLength := ipLen pkt, proto := pkt.proto
    srcIp := pkt.srcIp, dstIp := pkt.dstIp, l4 := l4 }

section Frame

variable {cksum : UInt16} {l4 : List UInt8}

@[simp] theorem length_frameBytes : (frameBytes pkt cksum l4).length = 34 + l4.length := by
  simp [frameBytes]
  omega

/-- The frame up to the header behind IP. -/
theorem readFrame_store :
    readFrame (store m p (frameBytes pkt cksum l4)) p
      = (readL4 (store m p (frameBytes pkt cksum l4)) (p + 34) pkt.proto).map (viewOf pkt) := by
  have hlen := @length_frameBytes pkt cksum l4
  have hihl : store m p (frameBytes pkt cksum l4) (p + 14) = 0x45 :=
    Memory.store_inside (by omega)
  have hproto : store m p (frameBytes pkt cksum l4) (p + 23) = pkt.proto :=
    Memory.store_inside (by omega)
  have hdst : macAt (store m p (frameBytes pkt cksum l4)) (p + 0) = pkt.dstMac :=
    macAt_store (by omega) rfl
  have hsrc : macAt (store m p (frameBytes pkt cksum l4)) (p + 6) = pkt.srcMac :=
    macAt_store (by omega) rfl
  have htype : netUInt16 (store m p (frameBytes pkt cksum l4)) (p + 12) = etherTypeIpv4 :=
    netUInt16_store (by omega) rfl
  have htotal : netUInt16 (store m p (frameBytes pkt cksum l4)) (p + 16) = ipLen pkt :=
    netUInt16_store (by omega) rfl
  have hsrcIp : netUInt32 (store m p (frameBytes pkt cksum l4)) (p + 26) = pkt.srcIp :=
    netUInt32_store (by omega) rfl
  have hdstIp : netUInt32 (store m p (frameBytes pkt cksum l4)) (p + 30) = pkt.dstIp :=
    netUInt32_store (by omega) rfl
  unfold readFrame
  simp only [EtherHdr.size, EtherHdr.dAddr, EtherHdr.sAddr, EtherHdr.etherType,
    Ipv4Hdr.versionIhl, Ipv4Hdr.totalLength, Ipv4Hdr.nextProtoId, Ipv4Hdr.srcAddr,
    Ipv4Hdr.dstAddr, Nat.add_assoc, Nat.reduceAdd, hihl, hproto, hdst, hsrc, htype, htotal,
    hsrcIp, hdstIp]
  rfl

/-- The ports and the length of UDP. -/
theorem readL4_udp {cksum' : UInt16} (hproto : pkt.proto = ipprotoUdp) :
    readL4 (store m p (frameBytes pkt cksum (udpBytes pkt cksum'))) (p + 34) pkt.proto
      = some (.udp pkt.srcPort pkt.dstPort (l4Len pkt)) := by
  have hlen := @length_frameBytes pkt cksum (udpBytes pkt cksum')
  rw [length_udpBytes] at hlen
  have hsrc : netUInt16 (store m p (frameBytes pkt cksum (udpBytes pkt cksum'))) (p + 34)
      = pkt.srcPort := netUInt16_store (by omega) rfl
  have hdst : netUInt16 (store m p (frameBytes pkt cksum (udpBytes pkt cksum'))) (p + 36)
      = pkt.dstPort := netUInt16_store (by omega) rfl
  have hl4 : netUInt16 (store m p (frameBytes pkt cksum (udpBytes pkt cksum'))) (p + 38)
      = l4Len pkt := netUInt16_store (by omega) rfl
  rw [readL4, if_pos hproto]
  simp only [UdpHdr.srcPort, UdpHdr.dstPort, UdpHdr.dgramLen, Nat.add_assoc, Nat.reduceAdd,
    hsrc, hdst, hl4]

/-- The ports and the data offset of TCP. -/
theorem readL4_tcp {cksum' : UInt16} (hproto : pkt.proto = ipprotoTcp) :
    readL4 (store m p (frameBytes pkt cksum (tcpBytes pkt cksum'))) (p + 34) pkt.proto
      = some (.tcp pkt.srcPort pkt.dstPort 5) := by
  have hlen := @length_frameBytes pkt cksum (tcpBytes pkt cksum')
  rw [length_tcpBytes] at hlen
  have hsrc : netUInt16 (store m p (frameBytes pkt cksum (tcpBytes pkt cksum'))) (p + 34)
      = pkt.srcPort := netUInt16_store (by omega) rfl
  have hdst : netUInt16 (store m p (frameBytes pkt cksum (tcpBytes pkt cksum'))) (p + 36)
      = pkt.dstPort := netUInt16_store (by omega) rfl
  have hoff : store m p (frameBytes pkt cksum (tcpBytes pkt cksum')) (p + 46) = 0x50 :=
    Memory.store_inside (by omega)
  rw [readL4, if_neg (not_udp hproto), if_pos hproto]
  simp only [TcpHdr.srcPort, TcpHdr.dstPort, TcpHdr.dataOff, Nat.add_assoc, Nat.reduceAdd,
    hsrc, hdst, hoff]
  rfl

end Frame

-- ============================================================== the property

/-- What a receiver reads is what the packet sequence says, and the lengths fit
the frame. -/
structure Encodes (pkt : PktSeq) (view : FrameView) : Prop where
  dstMac : view.dstMac = pkt.dstMac
  srcMac : view.srcMac = pkt.srcMac
  etherType : view.etherType = etherTypeIpv4
  versionIhl : view.versionIhl = 0x45
  totalLength : view.totalLength.toNat = pkt.pktLen.toNat - 14
  proto : view.proto = pkt.proto
  srcIp : view.srcIp = pkt.srcIp
  dstIp : view.dstIp = pkt.dstIp
  udp : pkt.proto = ipprotoUdp →
    ∃ len, view.l4 = .udp pkt.srcPort pkt.dstPort len
      ∧ len.toNat = view.totalLength.toNat - 20
  tcp : pkt.proto = ipprotoTcp → view.l4 = .tcp pkt.srcPort pkt.dstPort 5

/-- The lengths do not wrap when the packet holds the headers before them. -/
theorem toNat_ipLen (hlen : 14 ≤ pkt.pktLen.toNat) : (ipLen pkt).toNat = pkt.pktLen.toNat - 14 :=
  UInt16.toNat_sub_of_le _ _ (UInt16.le_iff_toNat_le.mpr hlen)

theorem toNat_l4Len (hlen : 34 ≤ pkt.pktLen.toNat) :
    (l4Len pkt).toNat = (ipLen pkt).toNat - 20 := by
  refine UInt16.toNat_sub_of_le _ _ (UInt16.le_iff_toNat_le.mpr ?_)
  show 20 ≤ (ipLen pkt).toNat
  rw [toNat_ipLen (by omega)]
  omega

/-- The view of a frame says what the packet says. -/
theorem encodes_viewOf {l4 : L4} (hlen : 34 ≤ pkt.pktLen.toNat)
    (hl4 : l4 = .udp pkt.srcPort pkt.dstPort (l4Len pkt) ∧ pkt.proto = ipprotoUdp
      ∨ l4 = .tcp pkt.srcPort pkt.dstPort 5 ∧ pkt.proto = ipprotoTcp) :
    Encodes pkt (viewOf pkt l4) := by
  have htotal := @toNat_ipLen pkt (by omega)
  constructor
  case udp =>
    intro hproto
    rcases hl4 with ⟨rfl, -⟩ | ⟨-, htcp⟩
    · exact ⟨_, rfl, toNat_l4Len hlen⟩
    · exact absurd hproto (not_udp htcp)
  case tcp =>
    intro hproto
    rcases hl4 with ⟨-, hudp⟩ | ⟨rfl, -⟩
    · exact absurd hudp (not_udp hproto)
    · rfl
  case totalLength => exact htotal
  all_goals rfl

/-- The bytes of the headers that are written. -/
def headersLen (pkt : PktSeq) : ℕ :=
  EtherHdr.size + Ipv4Hdr.size
    + if pkt.proto = ipprotoUdp then UdpHdr.size else TcpHdr.size

/-- The frame of either protocol: one string, of the length of its headers, and
what a receiver finds behind the IP header. -/
theorem construct_frame (hproto : pkt.proto = ipprotoUdp ∨ pkt.proto = ipprotoTcp) :
    ∃ cksum l4 view,
      pktSeqConstructPkt rteHashCrc pkt p m = store m p (frameBytes pkt cksum l4)
        ∧ headersLen pkt = (frameBytes pkt cksum l4).length
        ∧ readL4 (store m p (frameBytes pkt cksum l4)) (p + 34) pkt.proto = some view
        ∧ (view = .udp pkt.srcPort pkt.dstPort (l4Len pkt) ∧ pkt.proto = ipprotoUdp
          ∨ view = .tcp pkt.srcPort pkt.dstPort 5 ∧ pkt.proto = ipprotoTcp) := by
  rcases hproto with hproto | hproto
  · obtain ⟨cksum, hframe⟩ := @construct_udp rteHashCrc pkt p m hproto
    refine ⟨_, _, _, hframe, ?_, readL4_udp hproto, .inl ⟨rfl, hproto⟩⟩
    rw [headersLen, if_pos hproto, length_frameBytes, length_udpBytes]
    rfl
  · obtain ⟨cksum, hframe⟩ := @construct_tcp rteHashCrc pkt p m hproto
    refine ⟨_, _, _, hframe, ?_, readL4_tcp hproto, .inr ⟨rfl, hproto⟩⟩
    rw [headersLen, if_neg (not_udp hproto), length_frameBytes, length_tcpBytes]
    rfl

/-- Packet templates encode their configuration: a receiver reads from the
frame what the packet sequence says, and no byte outside the headers is
changed. -/
theorem construct_encodes (rteHashCrc : List UInt8 → UInt32 → UInt32 → UInt32)
    (pkt : PktSeq) (p : ℕ) (m : Mem)
    (hlen : pkt.proto = ipprotoUdp ∧ 42 ≤ pkt.pktLen.toNat
      ∨ pkt.proto = ipprotoTcp ∧ 54 ≤ pkt.pktLen.toNat) :
    (∃ view, readFrame (pktSeqConstructPkt rteHashCrc pkt p m) p = some view ∧ Encodes pkt view)
      ∧ ∀ i, i < p ∨ p + headersLen pkt ≤ i →
          pktSeqConstructPkt rteHashCrc pkt p m i = m i := by
  obtain ⟨cksum, l4, view, hframe, hsize, hread, hview⟩ :=
    @construct_frame rteHashCrc pkt p m (hlen.imp And.left And.left)
  rw [hframe]
  constructor
  · refine ⟨viewOf pkt view, ?_, encodes_viewOf (by omega) hview⟩
    rw [readFrame_store, hread]
    rfl
  · intro i hi
    rw [hsize] at hi
    exact Memory.store_outside hi

/-- A TCP sequence of the least length, between two hosts. -/
def leastTcp : PktSeq :=
  { srcMac := fun i => UInt8.ofNat i.val, dstMac := fun _ => 0x21
    srcIp := 0xC0A8000C, dstIp := 0xC0A80015, proto := ipprotoTcp
    srcPort := 9312, dstPort := 9321, pktLen := 54 }

theorem construct_encodes_leastTcp :
    (∃ view, readFrame (pktSeqConstructPkt Hash.hashCrc32c leastTcp 8 fun _ => 0xAA) 8 = some view
        ∧ Encodes leastTcp view)
      ∧ ∀ i, i < 8 ∨ 8 + headersLen leastTcp ≤ i →
          pktSeqConstructPkt Hash.hashCrc32c leastTcp 8 (fun _ => 0xAA) i = 0xAA :=
  construct_encodes Hash.hashCrc32c leastTcp 8 (fun _ => 0xAA) (.inr ⟨rfl, by decide⟩)

end PktSender.Pkt
