/-
The dump command of tools/cmd_dump.c: trace records from any number of files
are grouped by their ids and written out, one line a trace.

# Where a trace lives

`trace_tbl` maps the 16 bytes of a `struct trace_id` to a pointer into the
array `trace_data`, here an index (`none` is the null pointer).
`trace_data_ring` holds the indices that are not in use, as four-byte
integers.

# The gap

Between `portid` and `probeid` lie four bytes no field covers. The stack
variable `key` of `__add_record` is not cleared, so the gap holds whatever
was there, and the table hashes and compares it with the rest. Each call of
`addRecord` therefore takes the gap as an argument.

# Out of bounds

A location outside the arrays of `struct trace_data` or an index outside
`trace_data` is `none`: what the program does then is not modelled. So is a
null pointer.

The command line, the opening of the files and the conversion of times are in
`Dump/Command`, the text of the output in `Dump/Text`.
-/
import PktSender.Cuckoo.Basic

namespace PktSender.Dump

open LittleEndian PktSender.Ring PktSender.Cuckoo

/-- `ERR_OUT_OF_RANGE`, `ERR_MEMORY`. -/
def errOutOfRange : Int := -2
def errMemory : Int := -4

/-- `CMD_DUMP_LOC_MAX`. -/
def locMax : Nat := 16

/-- `CMD_DUMP_TRACE_MAX`. -/
def traceMax : Nat := 16384

/-- `sizeof(struct trace_id)`: two fields and the gap. -/
def sizeofTraceId : UInt32 := 16

-- ================================================================ the data

/-- `TIMESTAMP_CYCLES`, `TIMESTAMP_TIMESPEC`. -/
def timestampCycles : UInt8 := 0
def timestampTimespec : UInt8 := 1

/-- `struct record_ts`: the type and the two words of the union, the first
being `cycles` or `tv_sec` and the second `tv_nsec`. -/
structure RecordTs where
  tsType : UInt8
  word0 : UInt64
  word1 : UInt64
deriving DecidableEq

/-- A zeroed timestamp. -/
def RecordTs.zero : RecordTs := { tsType := 0, word0 := 0, word1 := 0 }

/-- `struct record_fmt`. -/
structure RecordFmt where
  tid : Int32
  location : UInt8
  probeSender : UInt32
  probeIdx : UInt64
  timestamp : RecordTs
deriving DecidableEq

/-- `struct trace_data`. -/
structure TraceData where
  idx : UInt32
  timestamp : Fin locMax → RecordTs
  tids : Fin locMax → Int32

/-- A zeroed element of the array. -/
def TraceData.zero : TraceData :=
  { idx := 0, timestamp := fun _ => .zero, tids := fun _ => 0 }

/-- The bytes of a `struct trace_id` with these bytes in its gap. -/
def traceId (portid gap : UInt32) (probeid : UInt64) : List UInt8 :=
  leBytes 4 portid.toNat ++ leBytes 4 gap.toNat ++ leBytes 8 probeid.toNat

/-- The file-level variables of the command. -/
structure DumpState where
  traceTbl : Tbl (Option UInt32)
  traceData : UInt32 → TraceData
  traceDataRing : Ringbuffer
  macLoc : UInt8

-- ================================================================ the table

/-- The loop of `__init_trace_tbl` that makes all indices available; a put
without room is dropped. -/
def populateIndices (r : Ringbuffer) (n : Nat) : Option Ringbuffer :=
  (List.range n).foldlM
    (fun r i =>
      let bytes := leBytes 4 (UInt32.ofNat i).toNat
      (ringbufferPut r (fun k => bytes.getD k 0) 4).map (·.1)) r

/-- `__init_trace_tbl`. -/
def initTraceTbl (mmapOk : UInt32 → Bool) (env env' : CreateEnv) :
    Option (Except Int DumpState) :=
  match cuckoohashCreate mmapOk env sizeofTraceId (UInt32.ofNat traceMax) with
  | none => none
  | some (.error e) => some (.error e)
  | some (.ok tbl) =>
      match ringbufferCreate env' none (4 * UInt32.ofNat traceMax) with
      | none => some (.error errMemory)
      | some r =>
          (populateIndices r traceMax).map fun r =>
            .ok { traceTbl := tbl, traceData := fun _ => .zero
                  traceDataRing := r, macLoc := 0 }

/-- Write a record to a trace. -/
def TraceData.store (t : TraceData) (loc : Fin locMax) (record : RecordFmt) :
    TraceData :=
  { t with
    timestamp := Function.update t.timestamp loc record.timestamp
    tids := Function.update t.tids loc record.tid }

/-- Write an element of the array. -/
def DumpState.setTrace (s : DumpState) (idx : UInt32) (t : TraceData) :
    DumpState :=
  { s with traceData := Function.update s.traceData idx t }

/-- Write it to the place its location gives; `none` is a location outside
the arrays. -/
def TraceData.write (t : TraceData) (record : RecordFmt) : Option TraceData :=
  if hloc : record.location.toNat < locMax then
    some (t.store ⟨record.location.toNat, hloc⟩ record)
  else none

/-- `__add_record`. -/
def addRecord (s : DumpState) (record : RecordFmt) (gap : UInt32) :
    Option (DumpState × Int) :=
  let key := traceId record.probeSender gap record.probeIdx
  -- find existing trace
  let (ret, data) := cuckoohashLookupData s.traceTbl key
  -- if there is no match, add new trace into table
  if ret < 0 then
    -- get free idx
    let (r, n, bytes) := ringbufferGet s.traceDataRing 4
    let s := { s with traceDataRing := r }
    let idx := UInt32.ofNat (ofLeBytes bytes)
    if n != 4 then some (s, errOutOfRange)
    else if idx.toNat < traceMax then
      -- construct new trace data
      (({ TraceData.zero with idx := idx } : TraceData).write record).bind fun t =>
        let s := s.setTrace idx t
        -- put into trace_tbl
        (cuckoohashAddKeyData s.traceTbl key (some idx)).map fun r =>
          ({ s with traceTbl := r.1 }, if r.2 < 0 then r.2 else 0)
    else none
  -- if match, update trace data
  else
    match data with
    | some (some idx) =>
        ((s.traceData idx).write record).map fun t => (s.setTrace idx t, 0)
    | _ => none

/-- One turn of the loop of `__read_record`, with the gap of its call. -/
def readOne (s : DumpState) (x : RecordFmt × UInt32) :
    Option (DumpState × Int) :=
  addRecord
    { s with
      macLoc := if x.1.location > s.macLoc then x.1.location else s.macLoc }
    x.1 x.2

/-- `__read_record` on the records of a file; a failed call is only
reported. -/
def readRecord (s : DumpState) (file : List (RecordFmt × UInt32)) :
    Option DumpState :=
  file.foldlM (fun s x => (readOne s x).map (·.1)) s

/-- The loop of `cmd_dump` over the input files. -/
def readFiles (s : DumpState) (files : List (List (RecordFmt × UInt32))) :
    Option DumpState :=
  files.foldlM readRecord s

-- ================================================================= the dump

/-- One line of the output: the fields of the id and the trace. -/
structure Row where
  portid : UInt32
  probeid : UInt64
  tracedata : TraceData

/-- The fields read from the bytes of a key. -/
def rowOf (key : List UInt8) (t : TraceData) : Row :=
  { portid := UInt32.ofNat (ofLeBytes (key.take 4))
    probeid := UInt64.ofNat (ofLeBytes (key.drop 8))
    tracedata := t }

/-- The loop of `__dump_all_traces` from a cursor, with at most `fuel` calls
of `cuckoohash_iterate`. -/
def dumpFrom (s : DumpState) : Nat → UInt32 → List Row
  | 0, _ => []
  | fuel + 1, iter =>
      match cuckoohashIterate s.traceTbl iter with
      | (ret, some (key, data), iter') =>
          if ret ≥ 0 then
            match data with
            | none => dumpFrom s fuel iter'
            | some idx => rowOf key (s.traceData idx) :: dumpFrom s fuel iter'
          else []
      | _ => []

/-- `__dump_all_traces`: the traces it writes, in order. -/
def dumpAllTraces (s : DumpState) : List Row :=
  dumpFrom s (4 * s.traceTbl.numBuckets.toNat + 1) 0

end PktSender.Dump
