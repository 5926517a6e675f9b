/-
Who holds an mbuf: the traffic sender of src/transmitter.c, the probe sender
of src/probe.c, the driver and the pools.

# The contract

`Dpdk` is the part of DPDK's state the two senders rely on: reference
counts, pools and the packets the driver holds. An allocated mbuf has one
reference; `rte_pktmbuf_free` releases one and returns the mbuf to its pool
at zero; `rte_eth_tx_burst` takes over the reference of each packet it
accepts, and the driver releases it at some later step (`complete`). The
allocators check that the count of what they get from a pool is zero and stop
the program otherwise.

# The threads

Each port has a thread that calls `tx_ctl_tx_burst`, and one thread runs the
timer callback `__process_probe`. A step is one call into DPDK, so the driver
and the other threads may come between any two of them. What the frames hold
is in `Probe/`; the sizes of the packets and the rate control only decide
whether a call of `tx_ctl_tx_burst` does anything, which is up to the run.

# Ghost state

`acquired` and `released` count, for each mbuf, how often it was allocated
and how often a reference was released. Nothing reads them.
-/
import Mathlib.Data.List.Basic
import Mathlib.Logic.Function.Basic

namespace PktSender.Mbuf

-- ============================================================ the contract

/-- The pools: `tx_mp` of each port and `probe_mp`. -/
inductive Pool where
  | tx (portid : UInt8)
  | probe
deriving DecidableEq

/-- An mbuf is one of its pool. -/
structure MbufId where
  pool : Pool
  idx : Nat
deriving DecidableEq

structure Dpdk where
  refcnt : MbufId → UInt16
  pool : Pool → List MbufId
  driver : List MbufId
  acquired : MbufId → Nat
  released : MbufId → Nat

/-- Take an mbuf out of a pool and give it one reference; `none` when it is
not there or the check of its count fails. -/
def rtePktmbufAlloc (d : Dpdk) (mp : Pool) (m : MbufId) : Option Dpdk :=
  if m ∉ d.pool mp then none
  else if d.refcnt m ≠ 0 then none
  else
    some { d with
      pool := Function.update d.pool mp ((d.pool mp).erase m)
      refcnt := Function.update d.refcnt m 1
      acquired := Function.update d.acquired m (d.acquired m + 1) }

/-- `rte_pktmbuf_free`. -/
def rtePktmbufFree (d : Dpdk) (m : MbufId) : Dpdk :=
  let refcnt := d.refcnt m - 1
  { d with
    refcnt := Function.update d.refcnt m refcnt
    pool :=
      if refcnt = 0 then Function.update d.pool m.pool (m :: d.pool m.pool)
      else d.pool
    released := Function.update d.released m (d.released m + 1) }

/-- `rte_eth_tx_burst` accepts these packets. -/
def rteEthTxBurst (d : Dpdk) (pkts : List MbufId) : Dpdk :=
  { d with driver := d.driver ++ pkts }

/-- The driver is done with a packet. -/
def driverComplete (d : Dpdk) (m : MbufId) : Option Dpdk :=
  if m ∈ d.driver then
    some (rtePktmbufFree { d with driver := d.driver.erase m } m)
  else none

/-- `__pktmbuf_alloc_bulk`: `rte_mempool_get_bulk` takes these mbufs, and
each is checked and gets its reference. -/
def pktmbufAllocBulk (d : Dpdk) (mp : Pool) (mbufs : List MbufId) :
    Option Dpdk :=
  mbufs.foldlM (fun d m => rtePktmbufAlloc d mp m) d

-- ============================================================= the threads

/-- `MAX_PKT_BURST`. -/
def maxPktBurst : Nat := 32

/-- Where a call of `tx_ctl_tx_burst` is. -/
inductive TxPc where
  | idle
  /-- in `__send_burst`: the packets accepted so far and the others -/
  | sending (accepted pkts : List MbufId)
  /-- in `rte_pktmbuf_free_bulk`: the packets not freed yet -/
  | freeing (mList : List MbufId)
deriving DecidableEq

/-- Where the timer callback is. -/
inductive ProbePc where
  | idle
  | next (i : UInt8)
  | send (i : UInt8)
  /-- before `rte_pktmbuf_free` -/
  | free (i : UInt8)
deriving DecidableEq

structure State where
  dpdk : Dpdk
  tx : UInt8 → TxPc
  nextPkt : UInt8 → Option MbufId
  probe : ProbePc

/-- The ports, and how many mbufs each pool was created with. -/
structure Cfg where
  nbPorts : UInt8
  portIsEnabled : UInt8 → Bool
  poolSize : Pool → Nat

/-- All mbufs are in their pools. -/
def start (cfg : Cfg) : State :=
  { dpdk :=
      { refcnt := fun _ => 0
        pool := fun mp => (List.range (cfg.poolSize mp)).map fun idx =>
          { pool := mp, idx := idx }
        driver := []
        acquired := fun _ => 0
        released := fun _ => 0 }
    tx := fun _ => .idle
    nextPkt := fun _ => none
    probe := .idle }

/-- What the outside decides. -/
inductive Act where
  /-- `tx_ctl_tx_burst` is called; whether the rate allows a burst now, and
  what the bulk allocation gets -/
  | txBurst (portid : UInt8) (due : Bool) (got : Option (List MbufId))
  /-- `rte_eth_tx_burst` in `__send_burst` returns `ret` -/
  | txSend (portid : UInt8) (ret : Nat)
  /-- one call of `rte_pktmbuf_free` in `rte_pktmbuf_free_bulk` -/
  | txFree (portid : UInt8)
  /-- the timer fires, with the TX job running or not -/
  | probeFire (running : Bool)
  /-- on to the next offer; `got` is for `rte_pktmbuf_alloc` -/
  | probeNext (got : Option MbufId)
  /-- `rte_eth_tx_burst` in `__process_probe` returns `ret`, 0 or 1 -/
  | probeSend (ret : Nat)
  /-- the call of `rte_pktmbuf_free` in `__process_probe` -/
  | probeFree
  /-- the driver releases a packet -/
  | complete (m : MbufId)
deriving DecidableEq

def State.setTx (s : State) (portid : UInt8) (pc : TxPc) : State :=
  { s with tx := Function.update s.tx portid pc }

/-- `tx_ctl_tx_burst`, up to its first call of `rte_eth_tx_burst`. -/
def txCtlTxBurst (s : State) (portid : UInt8) (due : Bool)
    (got : Option (List MbufId)) : Option State :=
  if s.tx portid ≠ .idle then none
  else if !due then some s
  else
    match got with
    | none => some s
    | some mbufs =>
        if mbufs.length ≠ maxPktBurst then none
        else
          (pktmbufAllocBulk s.dpdk (.tx portid) mbufs).map fun d =>
            ({ s with dpdk := d } : State).setTx portid (.sending [] mbufs)

/-- One round of the loop of `__send_burst`; after the last packet comes
`rte_pktmbuf_free_bulk` on the whole table. -/
def sendBurst (s : State) (portid : UInt8) (ret : Nat) : Option State :=
  match s.tx portid with
  | .sending accepted pkts =>
      if ret > pkts.length then none
      else
        let s := { s with dpdk := rteEthTxBurst s.dpdk (pkts.take ret) }
        let accepted := accepted ++ pkts.take ret
        let pkts := pkts.drop ret
        some (s.setTx portid
          (if pkts = [] then .freeing accepted else .sending accepted pkts))
  | _ => none

/-- One round of the loop of `rte_pktmbuf_free_bulk`. -/
def freeBulk (s : State) (portid : UInt8) : Option State :=
  match s.tx portid with
  | .freeing (m :: mList) =>
      let s := { s with dpdk := rtePktmbufFree s.dpdk m }
      some (s.setTx portid (if mList = [] then .idle else .freeing mList))
  | _ => none

/-- `__process_probe` from the head of its loop to the next offer. -/
def probeNext (cfg : Cfg) (s : State) (got : Option MbufId) : Option State :=
  match s.probe with
  | .next i =>
      if i ≥ cfg.nbPorts then some { s with probe := .idle }
      else if !cfg.portIsEnabled i then some { s with probe := .next (i + 1) }
      else if s.nextPkt i = none then
        match got with
        | none => some { s with probe := .idle }
        | some m =>
            (rtePktmbufAlloc s.dpdk .probe m).map fun d =>
              { s with
                dpdk := d
                nextPkt := Function.update s.nextPkt i (some m)
                probe := .send i }
      else some { s with probe := .send i }
  | _ => none

/-- The offer of `__process_probe`. -/
def probeSend (s : State) (ret : Nat) : Option State :=
  match s.probe with
  | .send i =>
      if ret > 1 then none
      else if ret < 1 then some { s with probe := .next (i + 1) }
      else
        (s.nextPkt i).map fun m =>
          { s with dpdk := rteEthTxBurst s.dpdk [m], probe := .free i }
  | _ => none

/-- The end of the loop's body in `__process_probe`. -/
def probeFree (s : State) : Option State :=
  match s.probe with
  | .free i =>
      (s.nextPkt i).map fun m =>
        { s with
          dpdk := rtePktmbufFree s.dpdk m
          nextPkt := Function.update s.nextPkt i none
          probe := .next (i + 1) }
  | _ => none

/-- One step of the system. -/
def step (cfg : Cfg) (s : State) : Act → Option State
  | .txBurst portid due got => txCtlTxBurst s portid due got
  | .txSend portid ret => sendBurst s portid ret
  | .txFree portid => freeBulk s portid
  | .probeFire running =>
      if s.probe ≠ .idle then none
      else some (if running then { s with probe := .next 0 } else s)
  | .probeNext got => probeNext cfg s got
  | .probeSend ret => probeSend s ret
  | .probeFree => probeFree s
  | .complete m => (driverComplete s.dpdk m).map fun d => { s with dpdk := d }

end PktSender.Mbuf
