/-
The command itself: `cmd_dump` of tools/cmd_dump.c, from its command line to
the last column of its output.

# The arrays

Three arrays are indexed by numbers that come from outside: `fin` by the
position of a file on the command line, `timestamp` and `tids` of a trace by
the location of a record when it is added, and by every number up to the
largest location when traces are written out. Here an index outside an array
is the result `none`, and what the program does then is not modelled.

# The command line

`getopt` is the GNU one: it takes the options wherever they stand, until an
argument `--`, and moves the other arguments to the end; the model goes
through the arguments once and collects those.

The texts of the messages are left out; that of the output is in `Dump/Text`.
-/
import PktSender.Dump.Basic

namespace PktSender.Dump

open PktSender.Ring PktSender.Cuckoo

/-- `CMD_DUMP_FILE_MAX`. -/
def fileMax : Nat := 10

/-- A command line argument. -/
abbrev Arg := List Char

/-- `OUTPUT_DEFAULT`. -/
def outputDefault : Arg := ['t', 'r', 'a', 'c', 'e', '.', 'd', 'a', 't', 'a']

/-- The records of a file, each with the gap of the call it is added by. -/
abbrev File := List (RecordFmt × UInt32)

/-- The files and the memory the command finds: whether a file can be opened
to be written, what is in the file that is given as the `i`-th operand if it
can be opened to be read, and the system calls of `__init_trace_tbl`. -/
structure DumpEnv where
  fopenOut : Arg → Bool
  fopenIn : Nat → Arg → Option File
  mmapOk : UInt32 → Bool
  tblEnv : CreateEnv
  ringEnv : CreateEnv

-- ========================================================= the command line

/-- `__parse_args` on the arguments behind the command's name: whether an
output file is open, and the operands; or an error. -/
def parseArgs (fopenOut : Arg → Bool) :
    Bool → List Arg → List Arg → Option (Bool × List Arg)
  | fout, operands, [] => some (fout, operands)
  | fout, operands, arg :: args =>
      match arg with
      | ['-', '-'] => some (fout, operands ++ args)
      | ['-', 'o'] =>
          match args with
          | [] => none
          | optarg :: args =>
              if fopenOut optarg then parseArgs fopenOut true operands args
              else none
      | '-' :: 'o' :: optarg =>
          if fopenOut optarg then parseArgs fopenOut true operands args else none
      | '-' :: _ :: _ => none
      | arg => parseArgs fopenOut fout (operands ++ [arg]) args

-- ============================================================== the inputs

/-- `fin`. -/
abbrev Inputs := Fin fileMax → Option File

/-- Read an element of `fin`. -/
def Inputs.read (fin : Inputs) (i : Nat) : Option (Option File) :=
  if hi : i < fileMax then some (fin ⟨i, hi⟩) else none

/-- Write one. -/
def Inputs.write (fin : Inputs) (i : Nat) (file : Option File) : Option Inputs :=
  if hi : i < fileMax then some (Function.update fin ⟨i, hi⟩ file) else none

/-- The loop that opens the operands from the `i`-th on, and whether all of
them could be opened. -/
def openInputs (fopenIn : Nat → Arg → Option File) :
    Inputs → Nat → List Arg → Option (Inputs × Bool)
  | fin, _, [] => some (fin, true)
  | fin, i, name :: names =>
      (fin.write i (fopenIn i name)).bind fun fin =>
        match fopenIn i name with
        | none => some (fin, false)
        | some _ => openInputs fopenIn fin (i + 1) names

/-- One turn of the loop behind `free_input`. -/
def freeOne (fin : Inputs) (i : Nat) : Option Inputs :=
  (fin.read i).bind fun file =>
    match file with
    | some _ => fin.write i none
    | none => some fin

/-- The loop behind `free_input`. -/
def freeInputs (fin : Inputs) (nbInput : Nat) : Option Inputs :=
  (List.range nbInput).foldlM freeOne fin

/-- One turn of the loop that reads the files. -/
def loadOne (x : DumpState × Inputs) (i : Nat) : Option (DumpState × Inputs) :=
  (x.2.read i).bind fun file =>
    match file with
    | some file =>
        (readRecord x.1 file).bind fun s => (x.2.write i none).map (s, ·)
    | none => some x

/-- The loop that reads the files. -/
def loadInputs (s : DumpState) (fin : Inputs) (nbInput : Nat) :
    Option (DumpState × Inputs) :=
  (List.range nbInput).foldlM loadOne (s, fin)

-- ============================================================== the output

/-- One column of a trace. -/
def TraceData.column (t : TraceData) (i : Nat) : Option (Int32 × RecordTs) :=
  if hi : i < locMax then some (t.tids ⟨i, hi⟩, t.timestamp ⟨i, hi⟩) else none

/-- The line of a trace: the columns 0 to `mac_loc`. -/
def dumpRow (macLoc : UInt8) (row : Row) : Option (List (Int32 × RecordTs)) :=
  (List.range (macLoc.toNat + 1)).mapM row.tracedata.column

/-- The lines of all traces. -/
def dumpRows (s : DumpState) : Option (List (List (Int32 × RecordTs))) :=
  (dumpAllTraces s).mapM (dumpRow s.macLoc)

/-- `cpu_hz`. It is a variable, but nothing gives it another value. -/
def cpuHz : Rat := 0

/-- `__get_time_ns`. The product is an exact one here and not rounded to a
`double`. -/
def getTimeNs (timestamp : RecordTs) : UInt64 :=
  if timestamp.tsType = timestampCycles then
    UInt64.ofNat (timestamp.word0.toNat * cpuHz).floor.toNat
  else if timestamp.tsType = timestampTimespec then
    timestamp.word0 * 1000000000 + timestamp.word1
  else 0

/-- The numbers printed for a trace behind its id: the thread and the time of
each column. -/
def printRow (macLoc : UInt8) (row : Row) : Option (List (Int32 × UInt64)) :=
  (dumpRow macLoc row).map fun columns =>
    columns.map fun column => (column.1, getTimeNs column.2)

/-- `cmd_dump` once there is an output file. -/
def dumpOperands (env : DumpEnv) (operands : List Arg) : Option Int :=
  -- open all input files
  let nbInput := operands.length
  (openInputs env.fopenIn (fun _ => none) 0 operands).bind fun (fin, opened) =>
    if !opened then (freeInputs fin nbInput).map fun _ => -1
    else
      -- create trace table
      match initTraceTbl env.mmapOk env.tblEnv env.ringEnv with
      | none => none
      | some (.error _) => (freeInputs fin nbInput).map fun _ => -1
      | some (.ok s) =>
          -- dump traces to output file
          (loadInputs s fin nbInput).bind fun (s, _) => (dumpRows s).map fun _ => 0

/-- `cmd_dump` on the arguments behind the command's name. -/
def cmdDump (env : DumpEnv) (args : List Arg) : Option Int :=
  match parseArgs env.fopenOut false [] args with
  | none => some (-1)
  | some (fout, operands) =>
      -- if no user-specific output file, use the default value
      if !fout && !env.fopenOut outputDefault then some (-1)
      else dumpOperands env operands

end PktSender.Dump
