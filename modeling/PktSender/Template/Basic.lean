/-
The packets of the traffic sender: `tx_ctl_setup_mempool` of src/transmitter.c
copies the template of a port into every mbuf of its pool before any thread
runs, and from then on a burst is whatever lies in the mbufs.

# The mbufs

`Packet` is an mbuf with its buffer. What `__pktmbuf_reset` does to one is in
`Mbuf/Bulk`, what `pkt_seq_construct_pkt` writes is in `Pkt/`.

# Two builds

From DPDK 16.7 on `rte_mempool_obj_iter` visits the mbufs. Before, they are
allocated until the pool is empty, chained by `next` and freed as one packet.
In both the order of the mbufs is up to the pool.

# The run

`System` is the state of `Mbuf/`, which says where the mbufs are, and what is
in them. The threads write to an mbuf when it is allocated and, if it is from
`probe_mp`, at any time; the driver only reads.

# Left out

The patterns other than `TX_PATTERN_SINGLE` set up nothing, here as in the
code. `pkt_seq_parse_mac` is called with one constant.
-/
import PktSender.Mbuf.Bulk
import PktSender.Pkt.Basic

namespace PktSender.Template

open Circular (load)
open Memory (store)
open Mbuf (MbufId Pool Act)
open Mbuf.Bulk (RteMbuf pktmbufReset)
open Pkt (Mem pktSeqConstructPkt)
open Probe (PktSeq EtherAddr ipprotoUdp)

-- =============================================================== the words

/-- `MAX_PKT_LEN`. -/
def maxPktLen : ℕ := 1514

/-- What `pkt_seq_parse_mac` makes of `PKT_SEQ_MAC_DST`. -/
def pktSeqMacDst : EtherAddr := fun _ => 0x21

/-- `PKT_SEQ_IP_SRC`, `PKT_SEQ_IP_DST`: 192.168.0.12 and 192.168.0.21. -/
def pktSeqIpSrc : UInt32 := 0xC0A8000C
def pktSeqIpDst : UInt32 := 0xC0A80015

def pktSeqPortSrc : UInt16 := 9312
def pktSeqPortDst : UInt16 := 9321
def pktSeqPktLen : UInt16 := 60

-- ================================================================ the data

inductive TxPattern where
  | single
  | random
  | pcap
deriving DecidableEq

/-- `struct tx_single`; behind the headers comes the padding, up to
`MAX_PKT_LEN`. -/
structure TxSingle where
  isInit : UInt8
  hdr : Mem

/-- The fields of `struct tx_ctl` the packets come from. -/
structure TxCtl where
  txPattern : TxPattern
  txSeq : PktSeq
  txSingle : TxSingle

/-- The fields of the global `pktsender` read by `tx_ctl_init`. -/
structure Global where
  txPattern : TxPattern
  txPkt : PktSeq

/-- An mbuf, and its buffer from `buf_addr` on. -/
structure Packet extends RteMbuf where
  pktLen : UInt32
  dataLen : UInt16
  buf : Mem

/-- The mbufs by their addresses. -/
abbrev Mbufs := MbufId → Packet

-- ============================================================ the sequences

/-- `pkt_seq_init_local`. -/
def pktSeqInitLocal (loc : PktSeq) (global : Option PktSeq) (portMac : Option EtherAddr) :
    PktSeq :=
  let loc :=
    match global with
    | none =>
        { loc with
          dstMac := pktSeqMacDst
          srcIp := pktSeqIpSrc
          dstIp := pktSeqIpDst
          proto := ipprotoUdp
          srcPort := pktSeqPortSrc
          dstPort := pktSeqPortDst
          pktLen := pktSeqPktLen }
    | some global =>
        { loc with
          dstMac := global.dstMac
          srcIp := global.srcIp
          dstIp := global.dstIp
          proto := global.proto
          srcPort := global.srcPort
          dstPort := global.dstPort
          pktLen := global.pktLen }
  match portMac with
  | none => loc
  | some mac => { loc with srcMac := mac }

/-- A sequence in zeroed memory. -/
def zeroSeq : PktSeq :=
  { srcMac := fun _ => 0, dstMac := fun _ => 0, srcIp := 0, dstIp := 0
    proto := 0, srcPort := 0, dstPort := 0, pktLen := 0 }

/-- `pktsender` when `main` has set `tx_pkt`; nothing sets it again. -/
def mainGlobal : Global :=
  { txPattern := .single, txPkt := pktSeqInitLocal zeroSeq none none }

/-- `tx_ctl_init`, besides the rate. -/
def txCtlInit (g : Global) (portMac : EtherAddr) : TxCtl :=
  { txPattern := g.txPattern
    txSeq := pktSeqInitLocal zeroSeq (some g.txPkt) (some portMac)
    txSingle := { isInit := 0, hdr := fun _ => 0 } }

-- =============================================================== the set-up

/-- The controller and the mbufs. -/
structure Setup where
  ctl : TxCtl
  mbufs : Mbufs

def Setup.write (s : Setup) (m : MbufId) (pkt : Packet) : Setup :=
  { s with mbufs := Function.update s.mbufs m pkt }

section
variable (rteHashCrc : List UInt8 → UInt32 → UInt32 → UInt32)

/-- The template is constructed when it is needed first. -/
def TxCtl.construct (ctl : TxCtl) : TxCtl :=
  if ctl.txSingle.isInit = 0 then
    { ctl with
      txSingle :=
        { isInit := 1, hdr := pktSeqConstructPkt rteHashCrc ctl.txSeq 0 ctl.txSingle.hdr } }
  else ctl

/-- `__pktmbuf_setup_cb`. -/
def pktmbufSetupCb (s : Setup) (m : MbufId) : Setup :=
  match s.ctl.txPattern with
  | .single =>
      let s := { s with ctl := s.ctl.construct rteHashCrc }
      let pkt := s.mbufs m
      -- copy the packet template into the mbuf
      s.write m
        { pkt with
          buf := store pkt.buf pkt.dataOff.toNat (load s.ctl.txSingle.hdr 0 maxPktLen)
          pktLen := s.ctl.txSeq.pktLen.toUInt32
          dataLen := s.ctl.txSeq.pktLen }
  | .random => s
  | .pcap => s

/-- `rte_mempool_obj_iter`. -/
def rteMempoolObjIter (mp : List MbufId) (s : Setup) : Setup :=
  mp.foldl (pktmbufSetupCb rteHashCrc) s

/-- `rte_pktmbuf_alloc`, what it writes. -/
def rtePktmbufAlloc (s : Setup) (m : MbufId) : Setup :=
  let pkt := s.mbufs m
  s.write m
    { toRteMbuf := pktmbufReset { pkt.toRteMbuf with refcnt := 1 }
      pktLen := 0, dataLen := 0, buf := pkt.buf }

/-- One round of the loop that allocates; `mm` is the head of the chain. -/
def allocRound (x : Setup × Option MbufId) (m : MbufId) : Setup × Option MbufId :=
  let (s, mm) := x
  let s := rtePktmbufAlloc s m
  -- put the allocated mbuf into a list to be freed later
  let s := s.write m { s.mbufs m with next := mm }
  (pktmbufSetupCb rteHashCrc s m, some m)

/-- A segment goes back to its pool. -/
def Packet.free (pkt : Packet) : Packet := { pkt with refcnt := pkt.refcnt - 1, next := none }

/-- `rte_pktmbuf_free` on a chain of at most `fuel` segments with one reference
each. -/
def rtePktmbufFree : ℕ → Option MbufId → Mbufs → Option Mbufs
  | _, none, mbufs => some mbufs
  | 0, some _, _ => none
  | fuel + 1, some m, mbufs =>
      let mNext := (mbufs m).next
      rtePktmbufFree fuel mNext (Function.update mbufs m (mbufs m).free)

/-- `tx_ctl_setup_mempool`; `old` is the build before 16.7, and `mp` are the
mbufs of the pool in the order it has them. -/
def txCtlSetupMempool (old : Bool) (mp : List MbufId) (s : Setup) : Option Setup :=
  if !old then some (rteMempoolObjIter rteHashCrc mp s)
  else
    let (s, mm) := mp.foldl (allocRound rteHashCrc) (s, none)
    (rtePktmbufFree mp.length mm s.mbufs).map fun mbufs => { s with mbufs := mbufs }

/-- The TX part of `__port_init_single` on one port after the other, as far as
it writes to mbufs; `pool` is the order of a port's pool. -/
def setupPorts (g : Global) (mac : UInt8 → EtherAddr) (old : Bool)
    (pool : UInt8 → List MbufId) (ports : List UInt8) (mbufs : Mbufs) : Option Mbufs :=
  ports.foldlM (fun mbufs portid =>
    (txCtlSetupMempool rteHashCrc old (pool portid)
      { ctl := txCtlInit g (mac portid), mbufs := mbufs }).map (·.mbufs)) mbufs

end

-- ================================================================== the run

/-- Where the mbufs are, and what is in them. -/
structure System where
  base : Mbuf.State
  mbufs : Mbufs

/-- The mbufs a step allocates for a burst. -/
def allocated : Act → List MbufId
  | .txBurst _ true (some mbufs) => mbufs
  | _ => []

/-- A step, with what the callback has in its mbufs after it. -/
def step (cfg : Mbuf.Cfg) (s : System) (a : Act × Mbufs) : Option System :=
  (Mbuf.step cfg s.base a.1).map fun base =>
    { base := base
      mbufs := fun m =>
        let pkt := s.mbufs m
        let pkt :=
          if m.pool = .probe then a.2 m
          else if m ∈ allocated a.1 then { pkt with toRteMbuf := pktmbufReset pkt.toRteMbuf }
          else pkt
        { pkt with refcnt := base.dpdk.refcnt m } }

end PktSender.Template
