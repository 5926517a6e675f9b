/-
The probe sender of src/probe.c: a timer callback that builds one numbered
frame a port, offers it to the port's queue and keeps it for the next tick
when it is not taken.

# Steps

A tick is cut at its calls into DPDK. `Act.fire` enters the callback with the
job state it finds; `Act.next` goes from the head of the loop to the next
offer, with what `rte_pktmbuf_alloc` returns if it is called on the way;
`Act.send` is the offer with what `rte_eth_tx_burst` returns and the rest of
the loop's body. Between two steps the callback is idle, at the head of the
loop or before an offer. `Act.complete` is the driver's step and may come
between any two of them.

# Frames

Mbufs are numbers, and `mem` is what lies in them. `probe_mp` is the list of
those it can hand out; which one `rte_pktmbuf_alloc` takes, and whether it
fails, is up to the run. What other mbufs than the pending ones hold is never
read.

# References

`rte_pktmbuf_alloc` gives an mbuf one reference, and `rte_pktmbuf_free`
releases one and puts the mbuf back at zero. An accepted frame is with the
driver, which releases a reference when it is done with it (`Act.complete`),
at any later step. A completion between an offer and the `rte_pktmbuf_free`
behind it leaves what one right after it leaves, as nothing is allocated in
between, so those two calls are one step. The check of the count in
`rte_pktmbuf_alloc`, which only a debug build makes, is left out.

The time stamps taken by `trace_hw_tx_record` go to a file and to nothing
modelled here; it does not write to the frame.

# Ghost state

`accepted` lists the port and the frame of each offer that was taken, in
order. Nothing reads it.
-/
import PktSender.Lib.LittleEndian
import Mathlib.Data.List.Basic
import Mathlib.Logic.Function.Basic

namespace PktSender.Probe

open LittleEndian (leBytes)

-- =============================================================== the words

/-- `ERR_DPDK`, `ERR_MEMORY`. -/
def errDpdk : Int := -3
def errMemory : Int := -4

/-- `LCORE_JOB_TX`. -/
def lcoreJobTx : UInt8 := 1

/-- `TXQ_LATENCY`. -/
def txqLatency : UInt8 := 1

def ipprotoUdp : UInt8 := 17

def probePktLen : UInt16 := 60
def probePktMagic : UInt32 := 0x12345678
def probePktEtherType : UInt16 := 0x88F7
def probePtpMsg : UInt8 := 0x00
def probePtpVersion : UInt8 := 0x02

/-- `PROBE_PKT_MAX`. -/
def probePktMax : Nat := 256

/-- `rte_cpu_to_be_16` on a little-endian machine. -/
def rteCpuToBe16 (x : UInt16) : UInt16 := (x <<< 8) ||| (x >>> 8)

-- ================================================================ the data

abbrev EtherAddr := Fin 6 → UInt8

/-- `struct pkt_seq`. -/
structure PktSeq where
  srcMac : EtherAddr
  dstMac : EtherAddr
  srcIp : UInt32
  dstIp : UInt32
  proto : UInt8
  srcPort : UInt16
  dstPort : UInt16
  pktLen : UInt16

/-- `struct pkt_fmt`. -/
structure PktFmt where
  srcMac : EtherAddr
  dstMac : EtherAddr
  etherType : UInt16
  ptpMsgId : UInt8
  ptpVersion : UInt8
  probeIdx : UInt64
  probeSender : UInt32
  probeMagic : UInt32

/-- The structure in memory: it is packed. -/
def PktFmt.bytes (fmt : PktFmt) : List UInt8 :=
  List.ofFn fmt.srcMac ++ List.ofFn fmt.dstMac ++ leBytes 2 fmt.etherType.toNat
    ++ [fmt.ptpMsgId, fmt.ptpVersion] ++ leBytes 8 fmt.probeIdx.toNat
    ++ leBytes 4 fmt.probeSender.toNat ++ leBytes 4 fmt.probeMagic.toNat

/-- The fields of `struct rte_mbuf` the probe sender uses, and the frame in
its buffer. -/
structure Mbuf where
  pktLen : UInt32
  dataLen : UInt16
  olFlags : UInt64
  data : PktFmt

/-- `struct probe_ctl`. -/
structure ProbeCtl where
  portid : UInt8
  queueid : UInt8
  /-- next probe idx -/
  nextIdx : UInt64
  /-- next probe packet to send -/
  nextPkt : Option Nat
  pktConfigure : PktSeq

/-- What does not change: the ports, and the flag `PKT_TX_IEEE1588_TMST`. -/
structure Cfg where
  nbPorts : UInt8
  portIsEnabled : UInt8 → Bool
  portGetPktSeq : UInt8 → PktSeq
  pktTxIeee1588Tmst : UInt64

/-- Where the callback is. -/
inductive Pc where
  | idle
  | next (i : UInt8)
  | send (i : UInt8)
deriving DecidableEq

/-- The file-level variables of probe.c, the mbufs, the frames the driver has
accepted and not completed, and the callback. -/
structure ProbeState where
  probeList : UInt8 → ProbeCtl
  mem : Nat → Mbuf
  refcnt : Nat → UInt16
  probeMp : List Nat
  driver : List Nat
  pc : Pc
  accepted : List (UInt8 × PktFmt)

-- ============================================================ initialization

/-- An element of zeroed memory. -/
def ProbeCtl.zero : ProbeCtl :=
  { portid := 0, queueid := 0, nextIdx := 0, nextPkt := none
    pktConfigure :=
      { srcMac := fun _ => 0, dstMac := fun _ => 0, srcIp := 0, dstIp := 0
        proto := 0, srcPort := 0, dstPort := 0, pktLen := 0 } }

/-- `__init_local_probe`. -/
def initLocalProbe (cfg : Cfg) (portid queueid : UInt8) : ProbeCtl :=
  { portid := portid, queueid := queueid, nextIdx := 0, nextPkt := none
    pktConfigure :=
      { cfg.portGetPktSeq portid with
        proto := ipprotoUdp, pktLen := probePktLen } }

/-- `probe_init`, with what its allocations return; `mem` is what lies in the
new pool. Each round of its loop writes the element of its own port. -/
def probeInit (cfg : Cfg) (mallocOk poolCreateOk : Bool) (mem : Nat → Mbuf) :
    Except Int ProbeState :=
  if !mallocOk then .error errMemory
  else if !poolCreateOk then .error errMemory
  else
    .ok
      { probeList := fun i =>
          if i < cfg.nbPorts && cfg.portIsEnabled i then
            initLocalProbe cfg i txqLatency
          else .zero
        mem := mem
        refcnt := fun _ => 0
        probeMp := List.range probePktMax
        driver := []
        pc := .idle
        accepted := [] }

-- ============================================================== the callback

/-- Write one port's control block. -/
def ProbeState.setCtl (s : ProbeState) (i : UInt8) (ctl : ProbeCtl) :
    ProbeState :=
  { s with probeList := Function.update s.probeList i ctl }

/-- Write one mbuf. -/
def ProbeState.setMbuf (s : ProbeState) (m : Nat) (pkt : Mbuf) : ProbeState :=
  { s with mem := Function.update s.mem m pkt }

/-- `rte_pktmbuf_free`. -/
def ProbeState.pktmbufFree (s : ProbeState) (m : Nat) : ProbeState :=
  let refcnt := s.refcnt m - 1
  { s with
    refcnt := Function.update s.refcnt m refcnt
    probeMp := if refcnt = 0 then m :: s.probeMp else s.probeMp }

@[simp] theorem ProbeState.pktmbufFree_probeList (s : ProbeState) (m : Nat) :
    (s.pktmbufFree m).probeList = s.probeList := rfl

@[simp] theorem ProbeState.pktmbufFree_mem (s : ProbeState) (m : Nat) :
    (s.pktmbufFree m).mem = s.mem := rfl

@[simp] theorem ProbeState.pktmbufFree_accepted (s : ProbeState) (m : Nat) :
    (s.pktmbufFree m).accepted = s.accepted := rfl

/-- The frame `__construct_probe` writes, field by field. -/
def fillProbe (ctl : ProbeCtl) : PktFmt :=
  { probeMagic := probePktMagic
    probeIdx := ctl.nextIdx
    probeSender := ctl.portid.toUInt32
    etherType := rteCpuToBe16 probePktEtherType
    ptpMsgId := probePtpMsg
    ptpVersion := probePtpVersion
    srcMac := ctl.pktConfigure.srcMac
    dstMac := ctl.pktConfigure.dstMac }

/-- `__construct_probe`, given what `rte_pktmbuf_alloc` returns; it cannot
return an mbuf that is not in the pool. -/
def constructProbe (cfg : Cfg) (s : ProbeState) (i : UInt8)
    (alloc : Option Nat) : Option (ProbeState × Int) :=
  match alloc with
  | none => some (s, errDpdk)
  | some m =>
      if m ∈ s.probeMp then
        let ctl := s.probeList i
        let pkt := s.mem m
        let s := { s with
          probeMp := s.probeMp.erase m
          refcnt := Function.update s.refcnt m 1 }
        let s := s.setMbuf m
          { pktLen := probePktLen.toUInt32
            dataLen := probePktLen
            data := fillProbe ctl
            olFlags := pkt.olFlags ||| cfg.pktTxIeee1588Tmst }
        some (s.setCtl i
          { ctl with nextPkt := some m, nextIdx := ctl.nextIdx + 1 }, 0)
      else none

/-- `trace_hw_tx_prepare` on one packet; `tracing` is `local_info.tid >= 0`.
Its result is not used. -/
def traceHwTxPrepare (cfg : Cfg) (tracing : Bool) (pkt : Mbuf) : Mbuf :=
  if !tracing then pkt
  else if pkt.data.etherType != rteCpuToBe16 probePktEtherType then pkt
  else if pkt.olFlags &&& cfg.pktTxIeee1588Tmst == 0 then
    { pkt with olFlags := pkt.olFlags ||| cfg.pktTxIeee1588Tmst }
  else pkt

/-- What the outside decides. -/
inductive Act where
  /-- the timer fires -/
  | fire (jobState : UInt8)
  /-- go on to the next offer; `alloc` is for `rte_pktmbuf_alloc` -/
  | next (alloc : Option Nat)
  /-- the offer; `ret` is what `rte_eth_tx_burst` returns, 0 or 1 -/
  | send (tracing : Bool) (ret : Nat)
  /-- the driver is done with an accepted frame -/
  | complete (m : Nat)
deriving DecidableEq

/-- `__process_probe`, up to its next call into DPDK, or a completion. -/
def step (cfg : Cfg) (s : ProbeState) : Act → Option ProbeState
  | .fire jobState =>
      if s.pc = .idle then
        if jobState &&& (1 <<< lcoreJobTx) == 0 then some s
        else some { s with pc := .next 0 }
      else none
  | .next alloc =>
      match s.pc with
      | .next i =>
          if i ≥ cfg.nbPorts then some { s with pc := .idle }
          else if !cfg.portIsEnabled i then some { s with pc := .next (i + 1) }
          else if (s.probeList i).nextPkt = none then
            (constructProbe cfg s i alloc).map fun r =>
              if r.2 < 0 then { r.1 with pc := .idle }
              else { r.1 with pc := .send i }
          else some { s with pc := .send i }
      | _ => none
  | .send tracing ret =>
      match s.pc with
      | .send i =>
          let ctl := s.probeList i
          match ctl.nextPkt with
          | none => none
          | some m =>
              let pkt := traceHwTxPrepare cfg tracing (s.mem m)
              let s := s.setMbuf m pkt
              if ret > 1 then none
              else if ret < 1 then some { s with pc := .next (i + 1) }
              else
                let s := { s with
                  accepted := s.accepted ++ [(ctl.portid, pkt.data)]
                  driver := m :: s.driver }
                let s := s.pktmbufFree m
                some { s.setCtl i { ctl with nextPkt := none } with
                  pc := .next (i + 1) }
      | _ => none
  | .complete m =>
      if m ∈ s.driver then
        some (({ s with driver := s.driver.erase m } : ProbeState).pktmbufFree m)
      else none

end PktSender.Probe
