/-
The calls of src/pkttracer/pt_trace.c on bursts of packets: `trace_handler`,
which takes one time for all probes of a burst, and `trace_hw_rx_record`,
which asks the NIC for a time for each flagged packet.

# Answers

A packet comes with what the calls made for it return, if they are made: the
clocks, the NIC, the trace file. `trace_hw_tx_prepare` (`Tracer/Basic`) is not
among the calls of a thread here: it reads the thread's `tid` and writes none
of `local_info`.

# Build

`PT_NIC_TIMESTAMP` is defined or not; `trace_handler` reads the NIC's clock or
the cycle counter accordingly.
-/
import PktSender.Tracer.Basic

namespace PktSender.Tracer

open Probe (Mbuf PktFmt rteCpuToBe16 probePktEtherType)

/-- `LOC_HARDWARE_RX`. -/
def locHardwareRx : UInt8 := 1

/-- The thread, the build and the flag `PKT_RX_IEEE1588_TMST`. -/
structure ApiCfg where
  gettid : Int32
  ptNicTimestamp : Bool
  pktRxIeee1588Tmst : UInt64

-- ============================================================ trace_handler

/-- What the clocks return, `none` when the NIC's cannot be read, and what the
file does. -/
structure HandlerAnswer where
  readTime : Option Timespec
  rdtsc : UInt64
  env : Env

/-- The reading of the clock, into `ts`. -/
def readClock (cfg : ApiCfg) (ts : Timespec) (answer : HandlerAnswer) : Timespec :=
  if cfg.ptNicTimestamp then answer.readTime.getD ts
  else { ts with tvNsec := answer.rdtsc }

/-- The type `trace_handler` records. -/
def ApiCfg.tsType (cfg : ApiCfg) : UInt8 :=
  if cfg.ptNicTimestamp then timestampTimespec else timestampCycles

/-- The locals of `trace_handler`, and the thread. -/
structure HandlerState where
  info : LocalInfo
  ts : Timespec
  isRead : Bool

/-- The clock is read once. -/
def HandlerState.read (cfg : ApiCfg) (h : HandlerState) (answer : HandlerAnswer) :
    HandlerState :=
  if !h.isRead then { h with ts := readClock cfg h.ts answer, isRead := true } else h

/-- One round of the loop of `trace_handler`. -/
def handlerRound (cfg : ApiCfg) (loc : UInt8) (h : HandlerState) (x : Mbuf × HandlerAnswer) :
    Option HandlerState :=
  let fmt := x.1.data
  if fmt.etherType ≠ rteCpuToBe16 probePktEtherType then some h
  else
    -- get timestamp
    let h := h.read cfg x.2
    (recordToCache h.info cfg.gettid x.2.env loc fmt.probeIdx fmt.probeSender cfg.tsType
      (some h.ts)).map fun info => { h with info := info }

/-- `trace_handler`. -/
def traceHandler (cfg : ApiCfg) (s : LocalInfo) (fopenOk : Bool) (loc : UInt8)
    (pkts : List (Mbuf × HandlerAnswer)) : Option LocalInfo :=
  if s.tid < 0 then some s
  else
    let (s, ret) := if s.fout.isNone then localInit s cfg.gettid fopenOk else (s, 0)
    if ret < 0 then some s
    else
      (pkts.foldlM (handlerRound cfg loc)
        { info := s, ts := { tvSec := 0, tvNsec := 0 }, isRead := false }).map (·.info)

-- ======================================================= trace_hw_rx_record

/-- What `rte_eth_timesync_read_rx_timestamp` returns, and what the file does to
the record and to the flush. -/
structure RxAnswer where
  ts : Option Timespec
  env : Env
  env' : Env

/-- One round of the loop of `trace_hw_rx_record`; the ether type is not
looked at. -/
def rxRound (cfg : ApiCfg) (s : LocalInfo) (x : Mbuf × RxAnswer) : Option LocalInfo :=
  if x.1.olFlags &&& cfg.pktRxIeee1588Tmst = 0 then some s
  else
    let fmt := x.1.data
    -- record hardware RX timestamp
    let recorded :=
      match x.2.ts with
      | none => some s
      | some ts =>
          recordToCache s cfg.gettid x.2.env locHardwareRx fmt.probeIdx fmt.probeSender
            timestampTimespec (some ts)
    -- flush cache to output file
    recorded.bind fun s => traceFlush s x.2.env'

/-- `trace_hw_rx_record`. -/
def traceHwRxRecord (cfg : ApiCfg) (s : LocalInfo) (pkts : List (Mbuf × RxAnswer)) :
    Option LocalInfo :=
  if s.tid < 0 then some s else pkts.foldlM (rxRound cfg) s

-- ================================================================= the calls

/-- The calls of a thread that use `local_info`, with what they get from
outside. -/
inductive ApiCall where
  | traceFlush (env : Env)
  | traceHandler (fopenOk : Bool) (loc : UInt8) (pkts : List (Mbuf × HandlerAnswer))
  | traceHwTxRecord (env env' : Env) (reads : ℕ → Option Timespec) (pkt : Option PktFmt)
  | traceHwRxRecord (pkts : List (Mbuf × RxAnswer))

/-- One call. -/
def apiExec (cfg : ApiCfg) (s : LocalInfo) : ApiCall → Option LocalInfo
  | .traceFlush env => traceFlush s env
  | .traceHandler fopenOk loc pkts => traceHandler cfg s fopenOk loc pkts
  | .traceHwTxRecord env env' reads pkt =>
      (traceHwTxRecord s cfg.gettid env env' reads pkt).map (·.info)
  | .traceHwRxRecord pkts => traceHwRxRecord cfg s pkts

end PktSender.Tracer
