/-
The statistics of src/stat.c: one entry for each enabled port, a timer callback
that computes what was counted since the last time, and the totals in the end.

# The counters

`rte_eth_stats_get` returns the counters of a port. `Counts` is what was
counted, as numbers; a register has 64 bits of it (`Counts.regs`). A NIC counts
whenever it wants to, also between two ports of one round, and what
`rte_eth_stats_reset` leaves in the counters is up to the driver.

# The figures

`__calculate_statis` computes a 64-bit integer, assigns it to the double `tx_bps`,
and prints that divided by 2^20 with six decimals. `Figures` has the integers; the
assignment, the division and the printing are left out, and so is the running
time in `stat_stop`.
-/
import PktSender.Lib.Lts
import PktSender.Port.Basic
import PktSender.Transmitter.Basic

namespace PktSender.Stat

open Port (portIds)
open Transmitter (frameExtraBytes)

-- ================================================================= the counters

/-- The fields of `struct rte_eth_stats` that are read. -/
structure RteEthStats where
  ipackets : UInt64
  opackets : UInt64
  ibytes : UInt64
  obytes : UInt64

/-- What was counted. -/
structure Counts where
  ipackets : ℕ
  opackets : ℕ
  ibytes : ℕ
  obytes : ℕ

def Counts.add (a b : Counts) : Counts :=
  { ipackets := a.ipackets + b.ipackets
    opackets := a.opackets + b.opackets
    ibytes := a.ibytes + b.ibytes
    obytes := a.obytes + b.obytes }

/-- The registers. -/
def Counts.regs (n : Counts) : RteEthStats :=
  { ipackets := .ofNat n.ipackets
    opackets := .ofNat n.opackets
    ibytes := .ofNat n.ibytes
    obytes := .ofNat n.obytes }

-- ==================================================================== the data

/-- `struct port_stats`. -/
structure PortStats where
  portid : UInt8
  cycStart : UInt64
  statLast : RteEthStats

/-- After the `memset`. -/
def PortStats.zero : PortStats :=
  { portid := 0, cycStart := 0
    statLast := { ipackets := 0, opackets := 0, ibytes := 0, obytes := 0 } }

/-- The integers `__calculate_statis` computes for the lines of a port. -/
structure Figures where
  portid : UInt8
  txBps : UInt64
  opkts : UInt64
  rxBps : UInt64
  ipkts : UInt64

/-- Where the timer callback or `stat_stop` is. -/
inductive StatPc where
  | idle
  /-- in the loop of `__process_stat` -/
  | process (i : ℕ)
  /-- in the loop of `stat_stop` -/
  | stop (i : ℕ)
  | stopped
deriving DecidableEq

structure State where
  nic : UInt8 → Counts
  portStat : List PortStats
  pc : StatPc
  figures : List Figures
  totals : List (UInt8 × RteEthStats)

-- ==================================================================== stat_init

/-- What the calls of `stat_init` meet: the allocation, the counters after a
reset, and the cycle counter. -/
structure InitEnv where
  mallocOk : Bool
  afterReset : UInt8 → Counts
  rteGetTscCycles : UInt8 → UInt64

/-- An assignment to `port_stat[i]`; `none` is outside of the array. -/
def write (portStat : List PortStats) (i : UInt8) (stat : PortStats) : Option (List PortStats) :=
  if i.toNat < portStat.length then some (portStat.set i.toNat stat) else none

/-- The loop of `stat_init`. -/
def statInitLoop (portIsEnabled : UInt8 → Bool) (env : InitEnv) (nbPortEnabled : UInt8) :
    List UInt8 → UInt8 → State → Option State
  | [], _, s => some s
  | portid :: ids, portCnt, s =>
      if !portIsEnabled portid then statInitLoop portIsEnabled env nbPortEnabled ids portCnt s
      else
        let nic := Function.update s.nic portid (env.afterReset portid)
        (write s.portStat portCnt
          { portid := portid
            cycStart := env.rteGetTscCycles portid
            statLast := (nic portid).regs }).bind fun portStat =>
          let s := { s with nic := nic, portStat := portStat }
          if portCnt + 1 ≥ nbPortEnabled then some s
          else statInitLoop portIsEnabled env nbPortEnabled ids (portCnt + 1) s

/-- `stat_init`, before which there is nothing but the counters. -/
def statInit (portIsEnabled : UInt8 → Bool) (env : InitEnv) (nbPorts nbPortEnabled : UInt8)
    (nic : UInt8 → Counts) : Option (State × Bool) :=
  let s : State := { nic := nic, portStat := [], pc := .idle, figures := [], totals := [] }
  if nbPortEnabled < 1 || nbPorts < 1 then some (s, false)
  else if !env.mallocOk then some (s, false)
  else
    (statInitLoop portIsEnabled env nbPortEnabled (portIds nbPorts) 0
      { s with portStat := List.replicate nbPortEnabled.toNat .zero }).map fun s => (s, true)

-- ====================================================================== the run

/-- `__calculate_statis`. -/
def calculateStatis (portid : UInt8) (start finish : RteEthStats) : Figures :=
  let opkts := finish.opackets - start.opackets
  let ipkts := finish.ipackets - start.ipackets
  { portid := portid
    txBps := (finish.obytes - start.obytes + opkts * frameExtraBytes.toUInt64) * 8
    opkts := opkts
    rxBps := (finish.ibytes - start.ibytes + ipkts * frameExtraBytes.toUInt64) * 8
    ipkts := ipkts }

/-- One round of the loop of `__process_stat`. -/
def processStat (s : State) (i : ℕ) : Option State :=
  (s.portStat[i]?).map fun stat =>
    let curStat := (s.nic stat.portid).regs
    { s with
      portStat := s.portStat.set i { stat with statLast := curStat }
      pc := .process (i + 1)
      figures := s.figures ++ [calculateStatis stat.portid stat.statLast curStat] }

/-- One round of the loop of `stat_stop`. -/
def statStop (s : State) (i : ℕ) : Option State :=
  (s.portStat[i]?).map fun stat =>
    { s with
      pc := .stop (i + 1)
      totals := s.totals ++ [(stat.portid, (s.nic stat.portid).regs)] }

inductive Act where
  /-- the NIC of a port counts -/
  | count (portid : UInt8) (n : Counts)
  /-- the timer fires, or `stat_stop` stops it and goes on -/
  | fire
  | stop
  /-- the loop goes on -/
  | next

/-- One step; `rte_timer_stop_sync` waits for the end of the callback. -/
def step (nbPortEnabled : UInt8) (s : State) : Act → Option State
  | .count portid n =>
      some { s with nic := Function.update s.nic portid ((s.nic portid).add n) }
  | .fire => if s.pc = .idle then some { s with pc := .process 0 } else none
  | .stop => if s.pc = .idle then some { s with pc := .stop 0 } else none
  | .next =>
      match s.pc with
      | .idle => none
      | .process i =>
          if i < nbPortEnabled.toNat then processStat s i else some { s with pc := .idle }
      | .stop i =>
          if i < nbPortEnabled.toNat then statStop s i else some { s with pc := .stopped }
      | .stopped => none

end PktSender.Stat
