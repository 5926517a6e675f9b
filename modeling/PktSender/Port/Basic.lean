/-
The ports of src/port.c: which are enabled, which lcore serves which job of a
port, and their set-up through DPDK.

# DPDK

`Device` is what DPDK keeps: the queues that were set up, the mempools that
exist, the ports that were started. `Dpdk` is what its calls return. Start-up
makes each call at most once for a port, a queue or a pool, so the results
are functions of these, and any pattern of success and failure is one.

# Arrays

`port_list` has an element for each of the `port_nb_max` ports. It is a
function of the port; a write to an element it does not have is `none`.

# Left out

The MAC address, the packet templates and the sockets: nothing here depends
on them. The log. Of `port_close` there is what it does to one device
(`Device.close`); the loop is in `Lifecycle`.
-/
import PktSender.Transmitter.Basic
import Mathlib.Logic.Function.Basic

namespace PktSender.Port

open Transmitter (TxCtl Global txCtlInit)

-- =============================================================== the words

/-- `LCORE_JOB_RX`, `LCORE_JOB_TX`. -/
inductive Job where
  | rx
  | tx
deriving DecidableEq, Repr

/-- All jobs, in the order of the loops over `LCORE_JOB_MAX`. -/
def Job.all : List Job := [.rx, .tx]

/-- `ERR_OUT_OF_RANGE`, `ERR_DPDK`, `ERR_MEMORY`. -/
def errOutOfRange : Int := -2
def errDpdk : Int := -3
def errMemory : Int := -4

/-- `RXQ_RX`. -/
def rxqRx : UInt8 := 0

/-- `MAX_PORT_NUM`. -/
def maxPortNum : ℕ := 16

/-- `TXQ_TX`, `TXQ_LATENCY`, `TXQ_NUM_PER_PORT`. -/
def txqTx : UInt8 := 0
def txqLatency : UInt8 := 1
def txqNumPerPort : UInt16 := 2

-- ================================================================= the EAL

/-- The lcores: `RTE_MAX_LCORE`, which fits in 8 bits, and which lcores are
enabled, none of them from `RTE_MAX_LCORE` on. -/
structure Eal where
  rteMaxLcore : UInt8
  rteLcoreIsEnabled : UInt8 → Bool
  lt_of_enabled : ∀ lcore, rteLcoreIsEnabled lcore = true → lcore < rteMaxLcore

/-- What the calls into DPDK return. -/
structure Dpdk where
  /-- `max_tx_queues` in the answer of `rte_eth_dev_info_get` -/
  maxTxQueues : UInt8 → UInt16
  rteEthDevConfigure : UInt8 → Int
  /-- whether `rte_pktmbuf_pool_create` makes the pool of this port and job -/
  rtePktmbufPoolCreate : UInt8 → Job → Bool
  /-- by port and queue -/
  rteEthRxQueueSetup : UInt8 → UInt8 → Int
  rteEthTxQueueSetup : UInt8 → UInt8 → Int
  rteEthDevStart : UInt8 → Int

/-- A mempool, by the order of creation. -/
abbrev Mempool := ℕ

/-- The state of DPDK. -/
structure Device where
  /-- port and queue of each RX queue that was set up -/
  rxQueues : List (UInt8 × UInt8)
  txQueues : List (UInt8 × UInt8)
  /-- how many mempools were created -/
  created : ℕ
  /-- the calls of `rte_mempool_free` -/
  freed : List Mempool
  started : List UInt8
deriving DecidableEq

def Device.start : Device :=
  { rxQueues := [], txQueues := [], created := 0, freed := [], started := [] }

-- ================================================================ the data

/-- `struct port_info`. -/
structure PortInfo where
  id : UInt8
  isEnabled : Bool
  rxMp : Option Mempool
  txMp : Option Mempool
  lcoreMap : Job → UInt8
  txCtl : TxCtl

/-- An element of zeroed memory. -/
def PortInfo.zero : PortInfo :=
  { id := 0, isEnabled := false, rxMp := none, txMp := none
    lcoreMap := fun _ => 0
    txCtl :=
      { queueid := 0, txBuffer := { totalSize := 0, len := 0 }
        rateBps := 0, rateCycles := 0, rateNextCycles := 0 } }

/-- The file-level variables of port.c, and DPDK. -/
structure State where
  portNbMax : UInt8
  portList : UInt8 → PortInfo
  dev : Device

/-- The ports in the order of the loops over `port_nb_max`. -/
def portIds (portNbMax : UInt8) : List UInt8 :=
  (List.range portNbMax.toNat).map UInt8.ofNat

def State.setPort (s : State) (portid : UInt8) (port : PortInfo) : State :=
  { s with portList := Function.update s.portList portid port }

-- ================================================================== parsing

/-- `port_is_enabled`. -/
def portIsEnabled (s : State) (portid : UInt8) : Bool :=
  if portid ≥ s.portNbMax then false
  else (s.portList portid).isEnabled

/-- `port_update_lcore`. -/
def portUpdateLcore (s : State) (portid lcoreid : UInt8) (job : Job) :
    Option State :=
  if portid ≥ s.portNbMax then none
  else
    let port := s.portList portid
    some (s.setPort portid
      { port with lcoreMap := Function.update port.lcoreMap job lcoreid })

/-- The loop of `port_parse_opt` for the ports that are in use; each round
writes the element of its own port. -/
def portParse (eal : Eal) (portNbMax : UInt8) (inUse : UInt8 → Bool) : State :=
  { portNbMax := portNbMax
    portList := fun i =>
      if i < portNbMax && inUse i then
        { PortInfo.zero with
          id := i, isEnabled := true, lcoreMap := fun _ => eal.rteMaxLcore }
      else .zero
    dev := .start }

/-- `port_parse_opt`. -/
def portParseOpt (eal : Eal) (rteEthDevCount : UInt8) (portmask : UInt64) : State :=
  portParse eal rteEthDevCount fun i => portmask &&& (1 <<< i.toUInt64) ≠ 0

-- =================================================================== set-up

/-- `__port_init_dev`. -/
def portInitDev (dpdk : Dpdk) (portid : UInt8) : Int :=
  if dpdk.maxTxQueues portid < txqNumPerPort then errOutOfRange
  else if dpdk.rteEthDevConfigure portid < 0 then errDpdk
  else 0

/-- `__port_init_rx_pool`. -/
def portInitRxPool (dpdk : Dpdk) (s : State) (portid : UInt8) : State × Int :=
  let port := s.portList portid
  if dpdk.rtePktmbufPoolCreate portid .rx then
    ({ s.setPort portid { port with rxMp := some s.dev.created } with
       dev := { s.dev with created := s.dev.created + 1 } }, 0)
  else (s.setPort portid { port with rxMp := none }, errMemory)

/-- `__port_init_tx_pool`. -/
def portInitTxPool (dpdk : Dpdk) (s : State) (portid : UInt8) : State × Int :=
  let port := s.portList portid
  if dpdk.rtePktmbufPoolCreate portid .tx then
    ({ s.setPort portid { port with txMp := some s.dev.created } with
       dev := { s.dev with created := s.dev.created + 1 } }, 0)
  else (s.setPort portid { port with txMp := none }, errMemory)

/-- `rte_eth_rx_queue_setup`. -/
def rteEthRxQueueSetup (dpdk : Dpdk) (s : State) (portid queueid : UInt8) :
    State × Int :=
  let ret := dpdk.rteEthRxQueueSetup portid queueid
  if ret < 0 then (s, ret)
  else
    ({ s with dev := { s.dev with rxQueues := (portid, queueid) :: s.dev.rxQueues } },
      ret)

/-- `__setup_tx_queue`. -/
def setupTxQueue (dpdk : Dpdk) (s : State) (portid queueid : UInt8) : State × Int :=
  if dpdk.rteEthTxQueueSetup portid queueid < 0 then (s, errDpdk)
  else
    ({ s with dev := { s.dev with txQueues := (portid, queueid) :: s.dev.txQueues } },
      0)

/-- `rte_mempool_free` on a pointer that may be NULL, as the code guards it. -/
def Device.freePool (dev : Device) : Option Mempool → Device
  | none => dev
  | some mp => { dev with freed := mp :: dev.freed }

/-- The code after the label `fail_free_mp`, and the body of
`__port_free_single`. -/
def freeMp (s : State) (portid : UInt8) : State :=
  let port := s.portList portid
  { s.setPort portid { port with rxMp := none, txMp := none } with
    dev := (s.dev.freePool port.rxMp).freePool port.txMp }

/-- The RX branch of the loop of `__port_init_single`. -/
def portInitRx (dpdk : Dpdk) (s : State) (portid : UInt8) : State × Int :=
  let (s, ret) := portInitRxPool dpdk s portid
  if ret < 0 then (s, errMemory)
  else
    let (s, ret) := rteEthRxQueueSetup dpdk s portid rxqRx
    if ret < 0 then (freeMp s portid, ret) else (s, ret)

/-- The TX branch. -/
def portInitTx (dpdk : Dpdk) (g : Global) (s : State) (portid : UInt8) :
    State × Int :=
  let (s, ret) := portInitTxPool dpdk s portid
  if ret < 0 then (freeMp s portid, ret)
  else
    let (s, ret) := setupTxQueue dpdk s portid txqTx
    if ret < 0 then (freeMp s portid, ret)
    else
      let s := s.setPort portid
        { s.portList portid with txCtl := txCtlInit g txqTx }
      let (s, ret) := setupTxQueue dpdk s portid txqLatency
      if ret < 0 then (freeMp s portid, ret) else (s, ret)

/-- The loop of `__port_init_single`. -/
def portInitJobs (eal : Eal) (dpdk : Dpdk) (g : Global) (portid : UInt8) :
    List Job → State → State × Int
  | [], s => (s, 0)
  | job :: jobs, s =>
      if (s.portList portid).lcoreMap job = eal.rteMaxLcore then
        portInitJobs eal dpdk g portid jobs s
      else
        let (s, ret) :=
          match job with
          | .rx => portInitRx dpdk s portid
          | .tx => portInitTx dpdk g s portid
        if ret < 0 then (s, ret) else portInitJobs eal dpdk g portid jobs s

/-- `__port_init_single`. -/
def portInitSingle (eal : Eal) (dpdk : Dpdk) (g : Global) (s : State)
    (portid : UInt8) : State × Int :=
  let ret := portInitDev dpdk (s.portList portid).id
  if ret < 0 then (s, ret) else portInitJobs eal dpdk g portid Job.all s

/-- `__port_free_single`. -/
def portFreeSingle (s : State) (portid : UInt8) : State :=
  if !portIsEnabled s portid then s else freeMp s portid

/-- The loop of `port_init`; on a failure, the one after `fail_clear`. -/
def portInitLoop (eal : Eal) (dpdk : Dpdk) (g : Global) :
    List UInt8 → State → State × Int
  | [], s => (s, 0)
  | portid :: rest, s =>
      if !portIsEnabled s portid then portInitLoop eal dpdk g rest s
      else
        let (s, ret) := portInitSingle eal dpdk g s portid
        if ret < 0 then ((portIds portid).foldl portFreeSingle s, ret)
        else portInitLoop eal dpdk g rest s

/-- `port_init`. -/
def portInit (eal : Eal) (dpdk : Dpdk) (g : Global) (s : State) : State × Int :=
  portInitLoop eal dpdk g (portIds s.portNbMax) s

/-- `rte_eth_dev_stop` and `rte_eth_dev_close`. -/
def Device.close (dev : Device) (portid : UInt8) : Device :=
  { dev with started := dev.started.filter (· ≠ portid) }

/-- The loop of `port_start`; on a failure, the one after `fail_close_port`. -/
def portStartLoop (dpdk : Dpdk) : List UInt8 → State → State × Int
  | [], s => (s, 0)
  | portid :: rest, s =>
      if !portIsEnabled s portid then portStartLoop dpdk rest s
      else if dpdk.rteEthDevStart portid < 0 then
        ({ s with
           dev := ((portIds portid).filter (portIsEnabled s)).foldl Device.close s.dev },
          errDpdk)
      else
        portStartLoop dpdk rest
          { s with dev := { s.dev with started := portid :: s.dev.started } }

/-- `port_start`. -/
def portStart (dpdk : Dpdk) (s : State) : State × Int :=
  portStartLoop dpdk (portIds s.portNbMax) s

/-- `port_free` while there is a `port_list`; the list itself is given back
after that. -/
def portFree (s : State) : State :=
  (portIds s.portNbMax).foldl portFreeSingle s

end PktSender.Port
