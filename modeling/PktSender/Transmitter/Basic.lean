/-
The transmitter of src/transmitter.c: bursts of `MAX_PKT_BURST` packets, each
pushing the time of the next one forward by what its bytes cost at the
configured rate.

# Parameters

A call of `tx_ctl_tx_burst` gets from outside the reading of the cycle
counter, what the bulk allocation returns, and how many packets
`rte_eth_tx_burst` accepts each time `__send_burst` asks. `__send_burst` asks
until nothing is left, so a call that runs out of answers has not returned.

`rate_cycles` is a double; it is taken here as the exact quotient. The
conversion to `uint64_t` drops the fraction.

# Left out

Which mbufs a burst holds and who frees them is in `Mbuf/`; here a packet is
its length. `tx_seq`, the packet template and the pattern do not enter the
rate control.
-/
import Mathlib.Data.Rat.Floor

namespace PktSender.Transmitter

-- =============================================================== the words

/-- `TX_RATE_DEFAULT_BPS`. -/
def txRateDefaultBps : UInt64 := 102400

/-- `MAX_PKT_BURST`. -/
def maxPktBurst : Nat := 32

/-- `INTER_FRAME_GAP`, `PKT_PREAMBLE_SIZE`, `FCS_SIZE`. -/
def interFrameGap : UInt32 := 12
def pktPreambleSize : UInt32 := 8
def fcsSize : UInt32 := 4

/-- `FRAME_EXTRA_BYTES`. -/
def frameExtraBytes : UInt32 := interFrameGap + pktPreambleSize + fcsSize

/-- `pkt_wire_size`. -/
def pktWireSize (len : UInt32) : UInt32 := len + frameExtraBytes

-- ================================================================ the data

/-- The field of `struct rte_mbuf` the rate control reads. -/
structure RteMbuf where
  pktLen : UInt32
deriving DecidableEq

/-- `struct mbuf_table`; the packets of the current call are its arguments. -/
structure MbufTable where
  totalSize : UInt32
  len : UInt16
deriving DecidableEq

/-- `struct tx_ctl`. -/
structure TxCtl where
  queueid : UInt8
  txBuffer : MbufTable
  rateBps : UInt64
  rateCycles : ℚ
  rateNextCycles : UInt64
deriving DecidableEq

/-- The fields of the global `pktsender` read by `tx_ctl_init`. -/
structure Global where
  cpuHz : UInt64
  txRate : UInt64
deriving DecidableEq

/-- What a call of `tx_ctl_tx_burst` gets from outside. -/
structure Call where
  /-- `rte_get_tsc_cycles` -/
  cycles : UInt64
  /-- `__pktmbuf_alloc_bulk` -/
  mbufs : Option (Vector RteMbuf maxPktBurst)
  /-- what each `rte_eth_tx_burst` returns -/
  accepted : List UInt32

/-- A burst that was sent: when, and the packets. -/
structure Burst where
  cycles : UInt64
  pkts : List RteMbuf
deriving DecidableEq

/-- A call that returned. -/
structure Return where
  ctl : TxCtl
  ret : Int
  sent : Option Burst
deriving DecidableEq

-- ============================================================ initialization

/-- `__get_tx_cycles_per_byte`. -/
def getTxCyclesPerByte (g : Global) (bps : UInt64) : ℚ :=
  g.cpuHz.toNat * 8 / bps.toNat

/-- `tx_ctl_init`. -/
def txCtlInit (g : Global) (queueid : UInt8) : TxCtl :=
  let rateBps := if g.txRate = 0 then txRateDefaultBps else g.txRate
  { queueid := queueid
    txBuffer := { totalSize := 0, len := 0 }
    rateBps := rateBps
    rateCycles := getTxCyclesPerByte g rateBps
    rateNextCycles := 0 }

-- ================================================================ the burst

/-- The locals of `__send_burst`, and what the driver got. -/
structure SendState (α : Type) where
  pkts : List α
  cnt : UInt32
  sent : List α
deriving DecidableEq

/-- One round of the loop of `__send_burst`. -/
def SendState.round {α : Type} (s : SendState α) (ret : UInt32) : SendState α :=
  { pkts := s.pkts.drop ret.toNat
    cnt := s.cnt - ret
    sent := s.sent ++ s.pkts.take ret.toNat }

/-- The loop of `__send_burst`; `none` when it is still asking. -/
def sendLoop {α : Type} : List UInt32 → SendState α → Option (List α)
  | rets, s =>
      if s.cnt > 0 then
        match rets with
        | [] => none
        | ret :: rets => sendLoop rets (s.round ret)
      else some s.sent

/-- `__send_burst`. -/
def sendBurst {α : Type} (buffer : MbufTable) (mTable : List α)
    (rets : List UInt32) : Option (List α) :=
  sendLoop rets { pkts := mTable, cnt := buffer.len.toUInt32, sent := [] }

/-- The loop that adds up `total_size`. -/
def addWireSizes (totalSize : UInt32) (pkts : List RteMbuf) : UInt32 :=
  pkts.foldl (fun total pkt => total + pktWireSize pkt.pktLen) totalSize

/-- `tx_ctl_tx_burst`; `none` when `__send_burst` does not return. -/
def txCtlTxBurst (ctl : TxCtl) (call : Call) : Option Return :=
  if ctl.rateNextCycles ≥ call.cycles then
    some { ctl := ctl, ret := 0, sent := none }
  else
    match call.mbufs with
    | none => some { ctl := ctl, ret := -1, sent := none }
    | some mbufs =>
        let buffer : MbufTable :=
          { totalSize := addWireSizes ctl.txBuffer.totalSize mbufs.toList
            len := UInt16.ofNat maxPktBurst }
        (sendBurst buffer mbufs.toList call.accepted).map fun _ =>
          let cost := ⌊buffer.totalSize.toNat * ctl.rateCycles⌋₊
          { ctl :=
              { ctl with
                rateNextCycles := call.cycles + UInt64.ofNat cost
                txBuffer := { totalSize := 0, len := 0 } }
            ret := 0
            sent := some { cycles := call.cycles, pkts := mbufs.toList } }

/-- Calls on one `tx_ctl`, one after the other, and the bursts they sent. -/
def runCalls (ctl : TxCtl) : List Call → Option (TxCtl × List Burst)
  | [] => some (ctl, [])
  | call :: calls => do
      let r ← txCtlTxBurst ctl call
      let (ctl, bursts) ← runCalls r.ctl calls
      return (ctl, r.sent.toList ++ bursts)

end PktSender.Transmitter
