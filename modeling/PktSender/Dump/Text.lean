/-
The text `__dump_all_traces` of tools/cmd_dump.c writes: a title and a line for
each trace, the fields with tabs between them.

Nothing in the repository reads the file; `readText` is how a program reads it
with `strtoul` and `strtol`.
-/
import PktSender.Dump.Command
import PktSender.Lib.Tsv

namespace PktSender.Dump

open Tsv (Field signed unsigned)
open CString (strtoul strtol)

-- ================================================================== the text

/-- The words of the title. -/
def wordPortid : List Char := ['p', 'o', 'r', 't', 'i', 'd']
def wordProbeid : List Char := ['p', 'r', 'o', 'b', 'e', 'i', 'd']
def wordLoc : List Char := ['l', 'o', 'c']
def wordTid : List Char := ['_', 't', 'i', 'd']
def wordNsec : List Char := ['_', 'n', 's', 'e', 'c']

/-- The title of the columns of a location. -/
def locText (i : ℕ) : List Char :=
  ['\t'] ++ wordLoc ++ signed i ++ wordTid ++ ['\t'] ++ wordLoc ++ signed i ++ wordNsec

/-- The title. -/
def titleText (macLoc : UInt8) : List Char :=
  wordPortid ++ ['\t'] ++ wordProbeid ++ (List.range (macLoc.toNat + 1)).flatMap locText ++ ['\n']

/-- A thread and a time. -/
def columnText (column : Int32 × UInt64) : List Char :=
  ['\t'] ++ signed column.1.toInt ++ ['\t'] ++ unsigned column.2.toNat

/-- The line of a trace. -/
def traceText (macLoc : UInt8) (row : Row) : Option (List Char) :=
  (printRow macLoc row).map fun columns =>
    unsigned row.portid.toNat ++ ['\t'] ++ unsigned row.probeid.toNat
      ++ columns.flatMap columnText ++ ['\n']

/-- `__dump_all_traces`: what it writes, and the number of traces it returns. -/
def dumpAllTracesText (s : DumpState) : Option (List Char × ℕ) :=
  let rows := dumpAllTraces s
  (rows.mapM (traceText s.macLoc)).map fun lines =>
    (titleText s.macLoc ++ lines.flatten, rows.length)

-- ================================================================ reading it

/-- A line as it is read. -/
structure Line where
  portid : UInt32
  probeid : UInt64
  columns : List (Int32 × UInt64)
deriving DecidableEq

def readColumns : List Field → List (Int32 × UInt64)
  | tid :: nsec :: fields =>
      ((strtol tid 10).val.toInt32, (strtoul nsec 10).val) :: readColumns fields
  | _ => []

def readLine : List Field → Option Line
  | portid :: probeid :: fields =>
      some
        { portid := (strtoul portid 10).val.toUInt32
          probeid := (strtoul probeid 10).val
          columns := readColumns fields }
  | _ => none

/-- The lines below the title. -/
def readText (text : List Char) : Option (List Line) :=
  ((Tsv.table text).drop 1).mapM readLine

end PktSender.Dump
