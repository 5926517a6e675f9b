/-
Who holds a received mbuf: `__process_rx` of src/pktsender.c in the threads of
`Launch/`, with the driver and the pools.

# The contract

`rx_mp` of a port has `NB_MBUFS` mbufs. The driver takes them from it for the
descriptors of the RX queue, one reference each (`arm`), and hands them over
from there in `rte_eth_rx_burst`. `rte_pktmbuf_free` releases a reference and
returns the mbuf to the pool it is from at zero. What lies in the pool or with
the driver may be written to at any time.

# The threads

A step of `Launch/` that polls a port is cut here: with it goes the burst call,
and what `__process_rx` does with the packets follows, a packet a step. The
thread takes no step of `Launch/` before that is done. `pkts_recv` is not
cleared, so behind the packets of a burst lie those of earlier ones.

# Ghost state

`got` is what was in the packets when the burst call returned. Nothing reads it.
-/
import PktSender.Launch.Proofs.Rounds

namespace PktSender.Rx

open Launch (Sys lcoreStep rxPort)
open Probe (Mbuf)
open Transmitter (Call)

/-- `NB_MBUFS`, `RX_DESC_DEFAULT`, `MAX_PKT_BURST`. -/
def nbMbufs : ℕ := 512
def rxDescDefault : ℕ := 128
def maxPktBurst : ℕ := 32

-- ================================================================= the driver

/-- An mbuf of the RX pool of a port. -/
structure MbufId where
  portid : UInt8
  idx : ℕ
deriving DecidableEq

structure Dpdk where
  refcnt : MbufId → UInt16
  /-- `rx_mp` of each port -/
  pool : UInt8 → List MbufId
  /-- what the driver has in the descriptors of each port -/
  ring : UInt8 → List MbufId

/-- The driver allocates an mbuf for a free descriptor. -/
def Dpdk.arm (d : Dpdk) (portid : UInt8) (m : MbufId) : Option Dpdk :=
  if rxDescDefault ≤ (d.ring portid).length then none
  else if m ∉ d.pool portid then none
  else
    some
      { refcnt := Function.update d.refcnt m 1
        pool := Function.update d.pool portid ((d.pool portid).erase m)
        ring := Function.update d.ring portid (m :: d.ring portid) }

/-- The driver hands over one mbuf. -/
def Dpdk.handOver (portid : UInt8) (d : Dpdk) (m : MbufId) : Option Dpdk :=
  if m ∉ d.ring portid then none
  else some { d with ring := Function.update d.ring portid ((d.ring portid).erase m) }

/-- `rte_eth_rx_burst`, when it returns these packets. -/
def rteEthRxBurst (d : Dpdk) (portid : UInt8) (nbPkts : ℕ) (got : List MbufId) : Option Dpdk :=
  if nbPkts < got.length then none else got.foldlM (Dpdk.handOver portid) d

/-- `rte_pktmbuf_free`. -/
def rtePktmbufFree (d : Dpdk) (m : MbufId) : Dpdk :=
  let refcnt := d.refcnt m - 1
  { d with
    refcnt := Function.update d.refcnt m refcnt
    pool :=
      if refcnt = 0 then Function.update d.pool m.portid (m :: d.pool m.portid) else d.pool }

-- ================================================================ the threads

/-- Where a thread is in `__process_rx`. -/
inductive RxPc where
  | idle
  /-- before `trace_hw_rx_record` -/
  | received (nbRx : ℕ)
  /-- in its loop -/
  | tracing (i cnt : ℕ)
  /-- in `rte_pktmbuf_free_bulk`, with `m_list` at `pkts + mList` -/
  | freeing (mList npkts : ℕ)
deriving DecidableEq

structure Thread where
  pc : RxPc
  pktsRecv : ℕ → Option MbufId
  got : List Mbuf

structure System where
  sys : Sys
  dpdk : Dpdk
  mem : MbufId → Mbuf
  rx : UInt8 → Thread

/-- After start-up: the mbufs are in their pools. -/
def start (sys : Sys) (mem : MbufId → Mbuf) : System :=
  { sys := sys
    dpdk :=
      { refcnt := fun _ => 0
        pool := fun portid => (List.range nbMbufs).map (MbufId.mk portid)
        ring := fun _ => [] }
    mem := mem
    rx := fun _ => { pc := .idle, pktsRecv := fun _ => none, got := [] } }

def System.setPc (s : System) (lcoreid : UInt8) (pc : RxPc) : System :=
  { s with rx := Function.update s.rx lcoreid { s.rx lcoreid with pc := pc } }

/-- The burst call has filled the table. -/
def Thread.receive (t : Thread) (mem : MbufId → Mbuf) (got : List MbufId) : Thread :=
  if got.length = 0 then t
  else
    { pc := .received got.length
      pktsRecv := fun i => (got[i]?).or (t.pktsRecv i)
      got := got.map mem }

/-- What the outside decides. -/
inductive Act where
  /-- a step of an RX/TX lcore, and what its burst call gets if it polls -/
  | lcore (lcoreid jobState : UInt8) (call : Call) (got : List MbufId)
  /-- a step of the timer callback -/
  | probe (act : Probe.Act)
  /-- a thread goes on in `__process_rx`; `tid` is what it has in `local_info` -/
  | call (lcoreid : UInt8) (tid : Int32)
  /-- the driver fills a descriptor -/
  | arm (portid : UInt8) (m : MbufId)

/-- An RX/TX lcore goes on, as far as into `__process_rx`. -/
def poll (s : System) (lcoreid jobState : UInt8) (call : Call) (got : List MbufId) :
    Option System :=
  if (s.rx lcoreid).pc ≠ .idle then none
  else
    (lcoreStep s.sys lcoreid jobState call).bind fun sys =>
      match rxPort s.sys lcoreid with
      | none => some { s with sys := sys }
      | some portid =>
          (rteEthRxBurst s.dpdk portid maxPktBurst got).map fun d =>
            { s with
              sys := sys
              dpdk := d
              rx := Function.update s.rx lcoreid ((s.rx lcoreid).receive s.mem got) }

/-- `__process_rx` behind the burst call, up to its next step. -/
def processRx (s : System) (lcoreid : UInt8) (tid : Int32) : Option System :=
  let t := s.rx lcoreid
  match t.pc with
  | .idle => none
  | .received nbRx =>
      if tid < 0 then some (s.setPc lcoreid (.freeing 0 nbRx))
      else some (s.setPc lcoreid (.tracing 0 nbRx))
  | .tracing i cnt =>
      if i < cnt then
        -- the record is made of `pkts[i]`
        (t.pktsRecv i).map fun _ => s.setPc lcoreid (.tracing (i + 1) cnt)
      else some (s.setPc lcoreid (.freeing 0 cnt))
  | .freeing _ 0 => some (s.setPc lcoreid .idle)
  | .freeing mList (npkts + 1) =>
      (t.pktsRecv mList).map fun m =>
        ({ s with dpdk := rtePktmbufFree s.dpdk m } : System).setPc lcoreid
          (.freeing (mList + 1) npkts)

def baseStep (c : Launch.Cfg) (s : System) : Act → Option System
  | .lcore lcoreid jobState call got => poll s lcoreid jobState call got
  | .probe act => (Launch.step c s.sys (.probe act)).map fun sys => { s with sys := sys }
  | .call lcoreid tid => processRx s lcoreid tid
  | .arm portid m => (s.dpdk.arm portid m).map fun d => { s with dpdk := d }

/-- The NIC and the pools write to what lies with them. -/
def System.write (s : System) (nic : MbufId → Mbuf) : System :=
  { s with
    mem := fun m =>
      if m ∈ s.dpdk.pool m.portid ∨ m ∈ s.dpdk.ring m.portid then nic m else s.mem m }

/-- A step, with what the NIC and the pools write after it. -/
def step (c : Launch.Cfg) (s : System) (a : Act × (MbufId → Mbuf)) : Option System :=
  (baseStep c s a.1).map fun s => s.write a.2

end PktSender.Rx
