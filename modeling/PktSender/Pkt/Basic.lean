/-
Packet templates: `pkt_seq_construct_pkt` of src/pkt_seq.c writes the headers
of a frame from a packet sequence.

# The memory

A frame lies at the address `hdr` of a memory of bytes. The host is
little-endian, so a field of two or four bytes is stored from its low-order
byte on; what goes over the network is swapped before, except the checksums.
A function that returns the address behind what it wrote returns it beside
the memory.

# The structures

`struct ether_hdr`, `ipv4_hdr`, `udp_hdr` and `tcp_hdr` are DPDK's; a field is
its offset. `struct udpip_hdr` and `tcpip_hdr` have the second header right
behind the first.

# Parameter

`rte_hash_crc` is outside the repository: a function of the bytes, of their
number and of the value to start with.
-/
import PktSender.Lib.BigEndian
import PktSender.Lib.Memory
import PktSender.Probe.Basic

namespace PktSender.Pkt

open Circular (load)
open Memory (store)
open LittleEndian (leBytes)
open Probe (PktSeq EtherAddr ipprotoUdp rteCpuToBe16)

-- =============================================================== the words

/-- `ETHER_TYPE_IPv4`. -/
def etherTypeIpv4 : UInt16 := 0x0800

def ipprotoTcp : UInt8 := 6

def ipVersion : UInt8 := 0x40
def ipHdrlen : UInt8 := 0x05
def ipVhlDef : UInt8 := ipVersion ||| ipHdrlen
def ipTtlDef : UInt8 := 64

def pktSeqTcpSeq : UInt32 := 0x12345678
def pktSeqTcpAck : UInt32 := 0x12345690
/-- `PKT_SEQ_TCP_FLAGS`: only `TCP_ACK_FLAG`. -/
def pktSeqTcpFlags : UInt8 := 0x10
def pktSeqTcpWindow : UInt16 := 8192

/-- `rte_cpu_to_be_32` on a little-endian machine. -/
def rteCpuToBe32 (x : UInt32) : UInt32 := UInt32.ofNat (BigEndian.swap 4 x.toNat)

-- ========================================================== the structures

namespace EtherHdr
def dAddr : ℕ := 0
def sAddr : ℕ := 6
def etherType : ℕ := 12
def size : ℕ := 14
end EtherHdr

namespace Ipv4Hdr
def versionIhl : ℕ := 0
def typeOfService : ℕ := 1
def totalLength : ℕ := 2
def packetId : ℕ := 4
def fragmentOffset : ℕ := 6
def timeToLive : ℕ := 8
def nextProtoId : ℕ := 9
def hdrChecksum : ℕ := 10
def srcAddr : ℕ := 12
def dstAddr : ℕ := 16
def size : ℕ := 20
end Ipv4Hdr

namespace UdpHdr
def srcPort : ℕ := 0
def dstPort : ℕ := 2
def dgramLen : ℕ := 4
def dgramCksum : ℕ := 6
def size : ℕ := 8
end UdpHdr

namespace TcpHdr
def srcPort : ℕ := 0
def dstPort : ℕ := 2
def sentSeq : ℕ := 4
def recvAck : ℕ := 8
def dataOff : ℕ := 12
def tcpFlags : ℕ := 13
def rxWin : ℕ := 14
def cksum : ℕ := 16
def tcpUrp : ℕ := 18
def size : ℕ := 20
end TcpHdr

-- =============================================================== the memory

abbrev Mem := ℕ → UInt8

def store8 (m : Mem) (p : ℕ) (v : UInt8) : Mem := store m p [v]

def store16 (m : Mem) (p : ℕ) (v : UInt16) : Mem := store m p (leBytes 2 v.toNat)

def store32 (m : Mem) (p : ℕ) (v : UInt32) : Mem := store m p (leBytes 4 v.toNat)

/-- `memset` with zero. -/
def memset0 (m : Mem) (p n : ℕ) : Mem := store m p (List.replicate n 0)

/-- `ether_addr_copy`. -/
def etherAddrCopy (m : Mem) (addr : EtherAddr) (p : ℕ) : Mem := store m p (List.ofFn addr)

-- ============================================================== the headers

section
variable (rteHashCrc : List UInt8 → UInt32 → UInt32 → UInt32)

/-- `__checksum_16` on the bytes it is given. -/
def checksum16 (data : List UInt8) (len : UInt32) : UInt16 :=
  let crc32 := rteHashCrc data len 0
  let crc32 := (crc32 &&& (0xffff : UInt32)) + (crc32 >>> (16 : UInt32))
  let crc32 := (crc32 &&& (0xffff : UInt32)) + (crc32 >>> (16 : UInt32))
  ~~~crc32.toUInt16

/-- `__construct_eth_hdr`. -/
def constructEthHdr (pkt : PktSeq) (hdr : ℕ) (m : Mem) : Mem × ℕ :=
  let m := etherAddrCopy m pkt.srcMac (hdr + EtherHdr.sAddr)
  let m := etherAddrCopy m pkt.dstMac (hdr + EtherHdr.dAddr)
  let m := store16 m (hdr + EtherHdr.etherType) (rteCpuToBe16 etherTypeIpv4)
  (m, hdr + EtherHdr.size)

/-- `__construct_ipv4_hdr`. -/
def constructIpv4Hdr (pkt : PktSeq) (hdr : ℕ) (m : Mem) : Mem :=
  -- zero out the header space
  let m := memset0 m hdr Ipv4Hdr.size
  -- construct IPv4 header
  let m := store8 m (hdr + Ipv4Hdr.versionIhl) ipVhlDef
  let m := store8 m (hdr + Ipv4Hdr.typeOfService) 0
  let m := store16 m (hdr + Ipv4Hdr.fragmentOffset) 0
  let m := store8 m (hdr + Ipv4Hdr.timeToLive) ipTtlDef
  let m := store16 m (hdr + Ipv4Hdr.packetId) 0
  let m := store32 m (hdr + Ipv4Hdr.srcAddr) (rteCpuToBe32 pkt.srcIp)
  let m := store32 m (hdr + Ipv4Hdr.dstAddr) (rteCpuToBe32 pkt.dstIp)
  let m := store8 m (hdr + Ipv4Hdr.nextProtoId) pkt.proto
  -- the entire packet size in bytes, including header and data
  let m := store16 m (hdr + Ipv4Hdr.totalLength)
    (rteCpuToBe16 (pkt.pktLen - UInt16.ofNat EtherHdr.size))
  -- compute IPv4 header checksum
  store16 m (hdr + Ipv4Hdr.hdrChecksum)
    (checksum16 rteHashCrc (load m hdr Ipv4Hdr.size) (UInt32.ofNat Ipv4Hdr.size))

/-- `__construct_tcp_hdr`. -/
def constructTcpHdr (pkt : PktSeq) (hdr : ℕ) (m : Mem) : Mem :=
  let tlen := pkt.pktLen - UInt16.ofNat EtherHdr.size - UInt16.ofNat Ipv4Hdr.size
  let tcp := hdr + Ipv4Hdr.size
  -- zero out the header space
  let m := memset0 m hdr (Ipv4Hdr.size + TcpHdr.size)
  -- construct TCP header
  let m := store16 m (tcp + TcpHdr.srcPort) (rteCpuToBe16 pkt.srcPort)
  let m := store16 m (tcp + TcpHdr.dstPort) (rteCpuToBe16 pkt.dstPort)
  let m := store32 m (tcp + TcpHdr.sentSeq) (rteCpuToBe32 pktSeqTcpSeq)
  let m := store32 m (tcp + TcpHdr.recvAck) (rteCpuToBe32 pktSeqTcpAck)
  let m := store8 m (tcp + TcpHdr.dataOff) (UInt8.ofNat (TcpHdr.size / 4) <<< 4)
  let m := store8 m (tcp + TcpHdr.tcpFlags) pktSeqTcpFlags
  let m := store16 m (tcp + TcpHdr.rxWin) (rteCpuToBe16 pktSeqTcpWindow)
  let m := store16 m (tcp + TcpHdr.tcpUrp) 0
  -- construct part of IP header
  let m := store32 m (hdr + Ipv4Hdr.srcAddr) (rteCpuToBe32 pkt.srcIp)
  let m := store32 m (hdr + Ipv4Hdr.dstAddr) (rteCpuToBe32 pkt.dstIp)
  let m := store16 m (hdr + Ipv4Hdr.totalLength) (rteCpuToBe16 tlen)
  let m := store8 m (hdr + Ipv4Hdr.nextProtoId) ipprotoTcp
  -- calculate TCP checksum
  store16 m (tcp + TcpHdr.cksum)
    (checksum16 rteHashCrc (load m hdr tlen.toNat) tlen.toUInt32)

/-- `__construct_udp_hdr`. -/
def constructUdpHdr (pkt : PktSeq) (hdr : ℕ) (m : Mem) : Mem :=
  let udp := hdr + Ipv4Hdr.size
  -- zero out the header space
  let m := memset0 m hdr (Ipv4Hdr.size + UdpHdr.size)
  let tlen := pkt.pktLen - UInt16.ofNat EtherHdr.size - UInt16.ofNat Ipv4Hdr.size
  -- construct pseudo IPv4 header
  let m := store8 m (hdr + Ipv4Hdr.nextProtoId) ipprotoUdp
  let m := store16 m (hdr + Ipv4Hdr.totalLength) (rteCpuToBe16 tlen)
  let m := store32 m (hdr + Ipv4Hdr.srcAddr) (rteCpuToBe32 pkt.srcIp)
  let m := store32 m (hdr + Ipv4Hdr.dstAddr) (rteCpuToBe32 pkt.dstIp)
  -- construct UDP header
  let m := store16 m (udp + UdpHdr.srcPort) (rteCpuToBe16 pkt.srcPort)
  let m := store16 m (udp + UdpHdr.dstPort) (rteCpuToBe16 pkt.dstPort)
  let m := store16 m (udp + UdpHdr.dgramLen) (rteCpuToBe16 tlen)
  -- calculate UDP checksum
  let crc := checksum16 rteHashCrc (load m hdr tlen.toNat) tlen.toUInt32
  let crc := if crc = 0 then 0xFFFF else crc
  store16 m (udp + UdpHdr.dgramCksum) crc

/-- `pkt_seq_construct_pkt`. -/
def pktSeqConstructPkt (pkt : PktSeq) (hdr : ℕ) (m : Mem) : Mem :=
  -- construct ethernet header
  let (m, l3Hdr) := constructEthHdr pkt hdr m
  let m :=
    if pkt.proto = ipprotoUdp then constructUdpHdr rteHashCrc pkt l3Hdr m
    else if pkt.proto = ipprotoTcp then constructTcpHdr rteHashCrc pkt l3Hdr m
    else m
  -- construct IPv4 header
  constructIpv4Hdr rteHashCrc pkt l3Hdr m

end

end PktSender.Pkt
