/-
Hardware timestamps: the probe sender of src/probe.c and the tracer of
src/pkttracer/pt_trace.c against a NIC that keeps one TX timestamp.

# The NIC

A packet sent with `PKT_TX_IEEE1588_TMST` has its time of transmission stored
in the latch at some later step, if the latch is empty then. A read of an
empty latch fails; any other read returns its content and empties it. The NIC
remembers which of the times not stored yet is the one of the last packet.

# The ticks

`__process_probe` runs on one port. It is cut before the read of
`trace_hw_tx_prepare`, before the burst, and before each read of
`trace_hw_tx_record`, and the NIC may store a time between any two steps. The
trace file takes whatever is written to it; it may fail to open.

# Ghost state

`transmitted` lists the probe index and the time of every probe that was
accepted. Nothing reads it.
-/
import PktSender.Tracer.Basic

namespace PktSender.Latch

open Probe (Mbuf PktFmt ProbeCtl fillProbe probePktLen errDpdk lcoreJobTx)
open Tracer (Timespec LocalInfo Env AfterRead afterRead recordHwTx traceHwTxPrepare)

-- ================================================================= the NIC

structure Nic where
  latch : Option Timespec
  /-- the time of the packet sent last, while it is to be stored -/
  current : Option Timespec
  /-- the times of packets before it that were not stored -/
  earlier : List Timespec
deriving DecidableEq

/-- `rte_eth_timesync_read_tx_timestamp`. -/
def Nic.readTxTimestamp (nic : Nic) : Nic × Option Timespec :=
  ({ nic with latch := none }, nic.latch)

/-- A packet is sent; its time is to be stored when it has the flag. -/
def Nic.transmit (nic : Nic) (ts : Option Timespec) : Nic :=
  { nic with current := ts, earlier := nic.current.toList ++ nic.earlier }

/-- Store the time of the last packet. -/
def Nic.storeCurrent (nic : Nic) : Option Nic :=
  if nic.latch.isSome then none
  else nic.current.map fun ts => { nic with latch := some ts, current := none }

/-- Store the time of an earlier packet. -/
def Nic.storeEarlier (nic : Nic) (k : ℕ) : Option Nic :=
  if nic.latch.isSome then none
  else nic.earlier[k]?.map fun ts =>
    { nic with latch := some ts, earlier := nic.earlier.eraseIdx k }

-- ================================================================ the state

/-- Where the callback is. -/
inductive Pc where
  | idle
  /-- before `trace_hw_tx_prepare` -/
  | prepare
  /-- before `rte_eth_tx_burst` -/
  | send
  /-- before a read of `trace_hw_tx_record` -/
  | record (waitUs : ℕ)
deriving DecidableEq

structure State where
  ctl : ProbeCtl
  /-- what lies in the mbuf `next_pkt` -/
  pkt : Mbuf
  info : LocalInfo
  nic : Nic
  pc : Pc
  transmitted : List (UInt64 × Timespec)

/-- The flag, and the thread of the callback. -/
structure Cfg where
  pktTxIeee1588Tmst : UInt64
  gettid : Int32

/-- Before the first tick: `probe_init` left this control block. -/
def start (ctl : ProbeCtl) (pkt : Mbuf) : State :=
  { ctl := { ctl with nextPkt := none }
    pkt := pkt
    info := .start
    nic := { latch := none, current := none, earlier := [] }
    pc := .idle
    transmitted := [] }

-- ================================================================= the ticks

/-- `__construct_probe`, given the mbuf `rte_pktmbuf_alloc` returns and what
lies in it. -/
def constructProbe (cfg : Cfg) (s : State) (alloc : Option (Nat × Mbuf)) : State × Int :=
  match alloc with
  | none => (s, errDpdk)
  | some (m, pkt) =>
      ({ s with
         pkt :=
           { pktLen := probePktLen.toUInt32
             dataLen := probePktLen
             data := fillProbe s.ctl
             olFlags := pkt.olFlags ||| cfg.pktTxIeee1588Tmst }
         ctl := { s.ctl with nextPkt := some m, nextIdx := s.ctl.nextIdx + 1 } }, 0)

/-- The head of `__process_probe`, up to `trace_hw_tx_prepare`. -/
def fire (cfg : Cfg) (s : State) (jobState : UInt8) (alloc : Option (Nat × Mbuf)) : State :=
  if jobState &&& (1 <<< lcoreJobTx) == 0 then s
  else if s.ctl.nextPkt = none then
    let (s, ret) := constructProbe cfg s alloc
    if ret < 0 then s else { s with pc := .prepare }
  else { s with pc := .prepare }

/-- `trace_hw_tx_prepare` on the pending packet. -/
def prepare (cfg : Cfg) (s : State) : State :=
  let (buf, ret) := traceHwTxPrepare cfg.pktTxIeee1588Tmst s.info.tid [s.pkt]
  { s with
    pkt := buf.headD s.pkt
    nic := if ret = 0 then s.nic.readTxTimestamp.1 else s.nic
    pc := .send }

/-- After `trace_hw_tx_record`: the mbuf is freed. -/
def finish (s : State) : State :=
  { s with ctl := { s.ctl with nextPkt := none }, pc := .idle }

/-- `rte_eth_tx_burst` accepts the probe, at this time. -/
def accept (cfg : Cfg) (s : State) (ts : Timespec) : State :=
  let s := { s with
    nic := s.nic.transmit
      (if s.pkt.olFlags &&& cfg.pktTxIeee1588Tmst ≠ 0 then some ts else none)
    transmitted := (s.pkt.data.probeIdx, ts) :: s.transmitted }
  -- the first check of `trace_hw_tx_record`
  if s.info.tid < 0 then finish s else { s with pc := .record 0 }

/-- The trace file opens or not, and takes everything. -/
def fileEnv (fopenOk : Bool) : Env :=
  { fopenOk := fopenOk, fwrites := [.full] }

/-- A read of `trace_hw_tx_record`, and what follows up to the next one. -/
def read (cfg : Cfg) (s : State) (waitUs : ℕ) (fopenOk : Bool) : Option State :=
  let (nic, ts) := s.nic.readTxTimestamp
  let s := { s with nic := nic }
  match afterRead waitUs ts with
  | .again waitUs => some { s with pc := .record waitUs }
  | .failed => some (finish s)
  | .record ts =>
      (recordHwTx s.info cfg.gettid (fileEnv fopenOk) (fileEnv fopenOk) (some s.pkt.data)
        ts).map fun info => finish { s with info := info }

/-- What the outside decides. -/
inductive Act where
  /-- the timer fires -/
  | fire (jobState : UInt8) (alloc : Option (Nat × Mbuf))
  | prepare
  /-- the burst, what it returns and when an accepted probe is sent -/
  | send (ret : ℕ) (ts : Timespec)
  | read (fopenOk : Bool)
  /-- the NIC stores a time -/
  | storeCurrent
  | storeEarlier (k : ℕ)

/-- One step of the callback or the NIC. -/
def step (cfg : Cfg) (s : State) : Act → Option State
  | .fire jobState alloc => if s.pc = .idle then some (fire cfg s jobState alloc) else none
  | .prepare => if s.pc = .prepare then some (prepare cfg s) else none
  | .send ret ts =>
      if s.pc = .send then
        if ret > 1 then none
        else if ret < 1 then some { s with pc := .idle }
        else some (accept cfg s ts)
      else none
  | .read fopenOk =>
      match s.pc with
      | .record waitUs => read cfg s waitUs fopenOk
      | _ => none
  | .storeCurrent => s.nic.storeCurrent.map fun nic => { s with nic := nic }
  | .storeEarlier k => (s.nic.storeEarlier k).map fun nic => { s with nic := nic }

end PktSender.Latch
