/-
The program as a whole: the start-up of src/main.c, and the lcores of
src/pktsender.c that poll, transmit and probe once it is done.

# Start-up

`startUp` makes the calls of `main` from `port_parse_opt` to `port_start` in
their order; it is `none` when one of them fails and the program ends, or
when an array is left. The statistics, the timers and the signal handler do
not touch the ports.

# The threads

An RX/TX lcore goes round its loop: every RX port is polled once, then, while
the TX job runs, every TX port may send a burst. The measurement lcore runs
the timer callback of src/probe.c. A step is one poll, one call of
`port_transmit` or one step of the callback or of the driver behind it, by any
thread; what a thread reads in `job_state` is up to the run. What becomes of the
packets of a poll is in `Rx/`; here `probe_receive` always returns. `bursts`
records the port and the queue of each burst call. Nothing reads it.
-/
import PktSender.Lib.Lts
import PktSender.Mapping.Basic
import PktSender.Probe.Basic

namespace PktSender.Launch

open Port (Eal Dpdk Job portIsEnabled portParseOpt portInit portStart rxqRx)
open Mapping (Params Main LcoreConf checkMapping initLcorePort)
open Transmitter (Global Call txCtlTxBurst)
open Probe (ProbeState PktSeq probeInit)

-- ================================================================= start-up

/-- What start-up depends on: the machine, the options and the results of
DPDK's calls. -/
structure Cfg where
  eal : Eal
  dpdk : Dpdk
  rteEthDevCount : UInt8
  /-- `rte_get_master_lcore` -/
  statLcore : UInt8
  portmask : UInt64
  params : Params
  global : Global
  /-- for `probe_init`: its allocations, and what lies in its pool -/
  mallocOk : Bool
  poolCreateOk : Bool
  mem : Nat → Probe.Mbuf
  portGetPktSeq : UInt8 → PktSeq
  pktTxIeee1588Tmst : UInt64

def Cfg.main (c : Cfg) : Main :=
  { nbPorts := c.rteEthDevCount, statLcore := c.statLcore }

/-- The ports after the options were parsed. -/
def Cfg.ports (c : Cfg) : Port.State :=
  portParseOpt c.eal c.rteEthDevCount c.portmask

/-- What src/probe.c sees of the ports. -/
def Cfg.probe (c : Cfg) (ports : Port.State) : Probe.Cfg :=
  { nbPorts := c.rteEthDevCount
    portIsEnabled := portIsEnabled ports
    portGetPktSeq := c.portGetPktSeq
    pktTxIeee1588Tmst := c.pktTxIeee1588Tmst }

/-- Where the thread of an lcore is. -/
inductive Pc where
  /-- before the condition of the loop -/
  | head
  /-- before a round of the loop over the RX ports, or the TX ports -/
  | rx (portid : ℕ)
  | tx (portid : ℕ)
  /-- in a call of `__send_burst` that does not return -/
  | sending
  | done
deriving DecidableEq

/-- A burst call: the port and the queue. -/
inductive Burst where
  | rx (portid queueid : UInt8)
  | tx (portid queueid : UInt8)
deriving DecidableEq

structure Sys where
  lcoreList : UInt8 → LcoreConf
  ports : Port.State
  probe : ProbeState
  pc : UInt8 → Pc
  bursts : List Burst

/-- The loop of `pktsender_launch_one_lcore` over the jobs. -/
def jobFlags (conf : LcoreConf) : UInt8 :=
  let flags := if (conf.jobs .rx).length > 0 then conf.jobFlags ||| 1 else conf.jobFlags
  if (conf.jobs .tx).length > 0 then flags ||| 2 else flags

/-- `pktsender_launch_one_lcore` up to the loop: which lcores run
`__launch_rxtx_lcore`. -/
def launch (c : Cfg) (lcoreList : UInt8 → LcoreConf) (lcoreid : UInt8) : Pc :=
  if !c.eal.rteLcoreIsEnabled lcoreid then .done
  else if jobFlags (lcoreList lcoreid) = 0 then .done
  else if lcoreid = c.statLcore then .done
  else .head

/-- `main`, from `port_parse_opt` to the launch of the lcores. -/
def startUp (c : Cfg) : Option Sys :=
  if !(Port.portIds c.rteEthDevCount).any (portIsEnabled c.ports) then none
  else
    (checkMapping c.eal c.main c.ports c.params).bind fun params =>
      if params.nbLcoreParams = 0 then none
      else
        (initLcorePort c.eal c.main params (.start c.ports)).bind fun (s, ret) =>
          if ret < 0 then none
          else
            let (ports, ret) := portInit c.eal c.dpdk c.global s.ports
            if ret < 0 then none
            else
              match probeInit (c.probe ports) c.mallocOk c.poolCreateOk c.mem with
              | .error _ => none
              | .ok probe =>
                  let (ports, ret) := portStart c.dpdk ports
                  if ret < 0 then none
                  else
                    some
                      { lcoreList := s.lcoreList
                        ports := ports
                        probe := probe
                        pc := launch c s.lcoreList
                        bursts := [] }

-- ================================================================== the runs

def Sys.setPc (s : Sys) (lcoreid : UInt8) (pc : Pc) : Sys :=
  { s with pc := Function.update s.pc lcoreid pc }

/-- A thread makes a burst call. -/
def Sys.burst (s : Sys) (b : Burst) : Sys :=
  { s with bursts := b :: s.bursts }

/-- `__process_rx`, without what it does with the packets. -/
def processRx (s : Sys) (portid : UInt8) : Sys :=
  s.burst (.rx portid rxqRx)

/-- `port_transmit` and the rest of the round: an error ends the loop. -/
def portTransmit (s : Sys) (lcoreid : UInt8) (k : ℕ) (portid : UInt8) (call : Call) :
    Sys :=
  let port := s.ports.portList portid
  match txCtlTxBurst port.txCtl call with
  | none => (s.burst (.tx portid port.txCtl.queueid)).setPc lcoreid .sending
  | some r =>
      let s := if r.sent.isSome then s.burst (.tx portid port.txCtl.queueid) else s
      let s := { s with ports := s.ports.setPort portid { port with txCtl := r.ctl } }
      s.setPc lcoreid (if r.ret < 0 then .done else .tx (k + 1))

/-- What the outside decides. -/
inductive Act where
  /-- an RX/TX lcore takes its next step; what it reads in `job_state`, and
  what `tx_ctl_tx_burst` gets, if it comes to these -/
  | lcore (lcoreid : UInt8) (jobState : UInt8) (call : Call)
  /-- the timer callback takes a step, or the driver of its frames -/
  | probe (act : Probe.Act)

/-- `__launch_rxtx_lcore`, up to its next step. -/
def lcoreStep (s : Sys) (lcoreid jobState : UInt8) (call : Call) : Option Sys :=
  let conf := s.lcoreList lcoreid
  match s.pc lcoreid with
  | .head =>
      if jobState &&& jobFlags conf = 0 then some (s.setPc lcoreid .done)
      else some (s.setPc lcoreid (.rx 0))
  | .rx k =>
      match (conf.jobs .rx)[k]? with
      | some portid => some ((processRx s portid).setPc lcoreid (.rx (k + 1)))
      | none =>
          if jobState &&& (1 <<< Probe.lcoreJobTx) = 0 then some (s.setPc lcoreid .head)
          else some (s.setPc lcoreid (.tx 0))
  | .tx k =>
      match (conf.jobs .tx)[k]? with
      | some portid => some (portTransmit s lcoreid k portid call)
      | none => some (s.setPc lcoreid .head)
  | .sending => none
  | .done => none

/-- The burst call of a step of the callback. -/
def probeBurst (probe : ProbeState) : Probe.Act → List Burst
  | .send _ _ =>
      match probe.pc with
      | .send i => [.tx (probe.probeList i).portid (probe.probeList i).queueid]
      | _ => []
  | _ => []

/-- One step of the program. -/
def step (c : Cfg) (s : Sys) : Act → Option Sys
  | .lcore lcoreid jobState call => lcoreStep s lcoreid jobState call
  | .probe act =>
      (Probe.step (c.probe s.ports) s.probe act).map fun probe =>
        { s with probe := probe, bursts := probeBurst s.probe act ++ s.bursts }

/-- The queue of a burst call was set up by `port_init`. -/
def Burst.SetUp (dev : Port.Device) : Burst → Prop
  | .rx portid queueid => (portid, queueid) ∈ dev.rxQueues
  | .tx portid queueid => (portid, queueid) ∈ dev.txQueues

instance (dev : Port.Device) : (b : Burst) → Decidable (b.SetUp dev)
  | .rx portid queueid => inferInstanceAs (Decidable ((portid, queueid) ∈ dev.rxQueues))
  | .tx portid queueid => inferInstanceAs (Decidable ((portid, queueid) ∈ dev.txQueues))

end PktSender.Launch
