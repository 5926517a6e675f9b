/-
The tracer of src/pkttracer/pt_trace.c: each thread keeps its records in a
small cache and writes them to its own trace file.

# The file

`fout` is the open trace file with what was written to it; NULL is `none`.
`writen` is stated for any unit of data; the cache is written in whole
records, so there the unit is one record instead of one byte.

# Parameters

A call gets from outside whether `fopen` succeeds and what each `fwrite`
does. A call that runs out of answers has not returned; a store past the
cache is `none`.
-/
import PktSender.Dump.Basic
import PktSender.Lib.Lts
import PktSender.Probe.Basic

namespace PktSender.Tracer

open Dump (RecordFmt RecordTs)
open Probe (Mbuf PktFmt rteCpuToBe16 probePktEtherType)

-- =============================================================== the words

/-- `PER_THREAD_CACHE_SIZE`. -/
def perThreadCacheSize : UInt32 := 10

/-- `LOC_HARDWARE_TX`. -/
def locHardwareTx : UInt8 := 0

/-- `TIMESTAMP_CYCLES`, `TIMESTAMP_TIMESPEC`. -/
def timestampCycles : UInt8 := 0
def timestampTimespec : UInt8 := 1

-- ================================================================ the data

/-- `struct timespec`. -/
structure Timespec where
  tvSec : UInt64
  tvNsec : UInt64
deriving DecidableEq

/-- `struct local_info`. -/
structure LocalInfo where
  tid : Int32
  fout : Option (List RecordFmt)
  nbRecord : UInt32
  cache : ℕ → RecordFmt
  lastIdx : UInt64
  lastPort : UInt32

/-- `local_info` of a new thread. -/
def LocalInfo.start : LocalInfo :=
  { tid := 0
    fout := none
    nbRecord := 0
    cache := fun _ =>
      { tid := 0, location := 0, probeSender := 0, probeIdx := 0, timestamp := .zero }
    lastIdx := 0
    lastPort := 0 }

/-- What one `fwrite` does: write everything it is asked to, or at most some
number of units. -/
inductive Fwrite where
  | full
  | short (n : UInt64)
deriving DecidableEq

/-- How many units are written of `count`. -/
def Fwrite.written (count : UInt64) : Fwrite → UInt64
  | .full => count
  | .short n => min n count

/-- What a call of the tracer gets from outside. -/
structure Env where
  fopenOk : Bool
  fwrites : List Fwrite
deriving DecidableEq

-- ================================================================ the file

section
variable {α : Type}

/-- The locals of `writen`, and the file. -/
structure WritenState (α : Type) where
  /-- where `buf` points, from the start of the buffer -/
  buf : ℕ
  ret : UInt64
  file : List α

/-- One round of the loop of `writen`. -/
def WritenState.round (mem : ℕ → α) (len : UInt64) (s : WritenState α) (r : Fwrite) :
    WritenState α :=
  let n := r.written len
  { buf := s.buf + n.toNat
    ret := s.ret - n
    file := s.file ++ (List.range n.toNat).map fun i => mem (s.buf + i) }

/-- The loop of `writen`; `none` when it is still writing. -/
def writenLoop (mem : ℕ → α) (len : UInt64) :
    List Fwrite → WritenState α → Option (List α)
  | rets, s =>
      if s.ret > 0 then
        match rets with
        | [] => none
        | r :: rets => writenLoop mem len rets (s.round mem len r)
      else some s.file

/-- `writen`, on the memory from `buf` on. -/
def writen (rets : List Fwrite) (fp : List α) (buf : ℕ → α) (len : UInt64) :
    Option (List α) :=
  writenLoop buf len rets { buf := 0, ret := len, file := fp }

end

-- ================================================================ the cache

/-- `__local_init`, in the thread `gettid`. -/
def localInit (s : LocalInfo) (gettid : Int32) (fopenOk : Bool) : LocalInfo × Int :=
  if fopenOk then ({ s with tid := gettid, fout := some [] }, 0)
  else ({ s with tid := -1, fout := none }, -1)

/-- Write the first records of the cache to the file. -/
def LocalInfo.writeCache (s : LocalInfo) (env : Env) (count : UInt32) :
    Option LocalInfo :=
  s.fout.bind fun fp =>
    (writen env.fwrites fp s.cache count.toUInt64).map fun file =>
      { s with fout := some file, nbRecord := 0 }

/-- `trace_flush`. -/
def traceFlush (s : LocalInfo) (env : Env) : Option LocalInfo :=
  if s.nbRecord = 0 then some s else s.writeCache env s.nbRecord

/-- The writes to the fields of a slot; the union keeps what is not written. -/
def fillRecord (record : RecordFmt) (tid : Int32) (loc : UInt8) (idx : UInt64)
    (sender : UInt32) (type : UInt8) (ts : Timespec) : RecordFmt :=
  let timestamp : RecordTs :=
    if type = timestampCycles then
      { record.timestamp with tsType := type, word0 := ts.tvNsec }
    else if type = timestampTimespec then
      { tsType := type, word0 := ts.tvSec, word1 := ts.tvNsec }
    else { record.timestamp with tsType := type }
  { tid := tid, location := loc, probeSender := sender, probeIdx := idx
    timestamp := timestamp }

/-- `__record_to_cache` from the check of `ts` on; the slot was chosen before. -/
def storeRecord (s : LocalInfo) (env : Env) (slot : UInt32) (loc : UInt8) (idx : UInt64)
    (sender : UInt32) (type : UInt8) (ts : Option Timespec) : Option LocalInfo :=
  match ts with
  | none => some s
  | some ts =>
      if slot ≥ perThreadCacheSize then none
      else
        let record := fillRecord (s.cache slot.toNat) s.tid loc idx sender type ts
        let s := { s with
          cache := Function.update s.cache slot.toNat record
          nbRecord := s.nbRecord + 1 }
        if s.nbRecord ≥ perThreadCacheSize then s.writeCache env perThreadCacheSize
        else some s

/-- `__record_to_cache`. -/
def recordToCache (s : LocalInfo) (gettid : Int32) (env : Env) (loc : UInt8) (idx : UInt64)
    (sender : UInt32) (type : UInt8) (ts : Option Timespec) : Option LocalInfo :=
  let slot := s.nbRecord
  if s.fout.isNone then
    let (s, ret) := localInit s gettid env.fopenOk
    if ret < 0 then some s else storeRecord s env slot loc idx sender type ts
  else storeRecord s env slot loc idx sender type ts

-- ===================================================== hardware timestamps

/-- One round of the loop of `trace_hw_tx_prepare`, on `ret` and a packet. -/
def prepareRound (pktTxIeee1588Tmst : UInt64) (ret : Int) (pkt : Mbuf) : Int × Mbuf :=
  if pkt.data.etherType != rteCpuToBe16 probePktEtherType then (ret, pkt)
  else if pkt.olFlags &&& pktTxIeee1588Tmst == 0 then
    (0, { pkt with olFlags := pkt.olFlags ||| pktTxIeee1588Tmst })
  else (ret, pkt)

/-- The loop of `trace_hw_tx_prepare`. -/
def prepareLoop (pktTxIeee1588Tmst : UInt64) : List Mbuf → Int → List Mbuf × Int
  | [], ret => ([], ret)
  | pkt :: buf, ret =>
      let (ret, pkt) := prepareRound pktTxIeee1588Tmst ret pkt
      let (buf, ret) := prepareLoop pktTxIeee1588Tmst buf ret
      (pkt :: buf, ret)

/-- `trace_hw_tx_prepare`; it reads the timestamp of the NIC, once, exactly when
it returns 0. -/
def traceHwTxPrepare (pktTxIeee1588Tmst : UInt64) (tid : Int32) (buf : List Mbuf) :
    List Mbuf × Int :=
  if tid < 0 then (buf, -1)
  else
    let (buf, ret) := prepareLoop pktTxIeee1588Tmst buf (-1)
    if ret = 0 then (buf, 0) else (buf, -1)

/-- The same call with the NIC: `read` is what `rte_eth_timesync_read_tx_timestamp`
does to it. -/
def traceHwTxPrepareNic {ν : Type} (read : ν → ν) (pktTxIeee1588Tmst : UInt64) (tid : Int32)
    (nic : ν) (buf : List Mbuf) : List Mbuf × ν × Int :=
  if tid < 0 then (buf, nic, -1)
  else
    let (buf, ret) := prepareLoop pktTxIeee1588Tmst buf (-1)
    -- read value from NIC to prevent latching with old value
    if ret = 0 then (buf, read nic, ret) else (buf, nic, -1)

/-- What comes after a read in the loop of `trace_hw_tx_record`. -/
inductive AfterRead where
  /-- one more read, after `wait_us` delays -/
  | again (waitUs : ℕ)
  /-- the error is logged -/
  | failed
  | record (ts : Timespec)
deriving DecidableEq

/-- A read by `trace_hw_tx_record` and the conditions on its result. -/
def afterRead (waitUs : ℕ) : Option Timespec → AfterRead
  | none => if waitUs < 1000 then .again (waitUs + 1) else .failed
  | some ts => if waitUs = 1000 then .failed else .record ts

/-- One more read follows the first 1000 failures at most. -/
theorem afterRead_again {waitUs waitUs' : ℕ} {read : Option Timespec}
    (h : afterRead waitUs read = .again waitUs') : waitUs' = waitUs + 1 ∧ waitUs < 1000 := by
  cases read with
  | none =>
      by_cases hlt : waitUs < 1000
      · rw [afterRead, if_pos hlt] at h
        exact ⟨(AfterRead.again.inj h).symm, hlt⟩
      · rw [afterRead, if_neg hlt] at h
        cases h
  | some ts =>
      by_cases hend : waitUs = 1000
      · rw [afterRead, if_pos hend] at h
        cases h
      · rw [afterRead, if_neg hend] at h
        cases h

/-- The loop of `trace_hw_tx_record` from a value of `wait_us` on, with the
outcome of every read: how many reads there are in the end, and what is to
be recorded. -/
def readTx (reads : ℕ → Option Timespec) (waitUs : ℕ) : ℕ × Option Timespec :=
  match h : afterRead waitUs (reads waitUs) with
  | .again waitUs' => readTx reads waitUs'
  | .failed => (waitUs + 1, none)
  | .record ts => (waitUs + 1, some ts)
termination_by 1000 - waitUs
decreasing_by
  obtain ⟨rfl, hlt⟩ := afterRead_again h
  omega

/-- The end of `trace_hw_tx_record`. -/
def recordHwTx (s : LocalInfo) (gettid : Int32) (env env' : Env) (pkt : Option PktFmt)
    (ts : Timespec) : Option LocalInfo :=
  let recorded :=
    match pkt with
    | none =>
        recordToCache s gettid env locHardwareTx s.lastIdx s.lastPort timestampTimespec
          (some ts)
    | some fmt =>
        recordToCache s gettid env locHardwareTx fmt.probeIdx fmt.probeSender
          timestampTimespec (some ts)
  recorded.bind fun s => traceFlush s env'

/-- What a call of `trace_hw_tx_record` did. -/
structure TxRecord where
  reads : ℕ
  /-- the error is logged -/
  failed : Bool
  info : LocalInfo

/-- `trace_hw_tx_record`, with the outcomes of the reads it may make. -/
def traceHwTxRecord (s : LocalInfo) (gettid : Int32) (env env' : Env)
    (reads : ℕ → Option Timespec) (pkt : Option PktFmt) : Option TxRecord :=
  if s.tid < 0 then some { reads := 0, failed := false, info := s }
  else
    match readTx reads 0 with
    | (n, none) => some { reads := n, failed := true, info := s }
    | (n, some ts) =>
        (recordHwTx s gettid env env' pkt ts).map fun s =>
          { reads := n, failed := false, info := s }

-- ================================================================= the calls

/-- The calls a thread makes. -/
inductive Call where
  | recordToCache (loc : UInt8) (idx : UInt64) (sender : UInt32) (type : UInt8)
      (ts : Option Timespec) (env : Env)
  | traceFlush (env : Env)
deriving DecidableEq

def Call.env : Call → Env
  | .recordToCache _ _ _ _ _ env => env
  | .traceFlush env => env

/-- One call in the thread `gettid`. -/
def exec (gettid : Int32) (s : LocalInfo) : Call → Option LocalInfo
  | .recordToCache loc idx sender type ts env =>
      recordToCache s gettid env loc idx sender type ts
  | .traceFlush env => traceFlush s env

end PktSender.Tracer
