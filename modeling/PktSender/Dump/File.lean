/-
A trace file in bytes: `struct record_fmt` as pkttracer/pt_trace.c writes it
and `__read_record` of tools/cmd_dump.c reads it.

# The layout

The fields stand where a compiler for x86-64 puts them, the integers with
their low byte first; a record has 48 bytes:

    0   tid              16  probe_idx
    4   location         24  timestamp.ts_type
    5   a gap            25  a gap
    8   probe_sender     32  timestamp.u, the first word
    12  a gap            40  timestamp.u, the second word

Nothing writes the gaps, so they hold anything.
-/
import PktSender.Dump.Basic
import PktSender.Lib.Blocks

namespace PktSender.Dump

open LittleEndian

/-- `sizeof(struct record_fmt)`. -/
def sizeofRecordFmt : ℕ := 48

/-- The bytes of a record that belong to no field. -/
structure Gaps where
  afterLocation : Fin 3 → UInt8
  afterSender : Fin 4 → UInt8
  afterType : Fin 7 → UInt8

/-- A gap that was never written to. -/
def Gaps.zero : Gaps :=
  { afterLocation := fun _ => 0, afterSender := fun _ => 0, afterType := fun _ => 0 }

/-- A record in memory. -/
def RecordFmt.bytes (gaps : Gaps) (r : RecordFmt) : List UInt8 :=
  leBytes 4 r.tid.toUInt32.toNat ++ ([r.location] ++ (List.ofFn gaps.afterLocation ++
    (leBytes 4 r.probeSender.toNat ++ (List.ofFn gaps.afterSender ++
      (leBytes 8 r.probeIdx.toNat ++ ([r.timestamp.tsType] ++ (List.ofFn gaps.afterType ++
        (leBytes 8 r.timestamp.word0.toNat ++ leBytes 8 r.timestamp.word1.toNat))))))))

/-- The fields, read from memory. -/
def RecordFmt.ofBytes (bs : List UInt8) : RecordFmt :=
  { tid := (UInt32.ofNat (readAt 0 4 bs)).toInt32
    location := UInt8.ofNat (readAt 4 1 bs)
    probeSender := UInt32.ofNat (readAt 8 4 bs)
    probeIdx := UInt64.ofNat (readAt 16 8 bs)
    timestamp :=
      { tsType := UInt8.ofNat (readAt 24 1 bs)
        word0 := UInt64.ofNat (readAt 32 8 bs)
        word1 := UInt64.ofNat (readAt 40 8 bs) } }

/-- `fread` of one record: what it reads into `record`, and what is left of the
file; `none` when it returns 0. -/
def freadRecord (file : List UInt8) : Option (RecordFmt × List UInt8) :=
  if file.length < sizeofRecordFmt then none
  else some (.ofBytes (file.take sizeofRecordFmt), file.drop sizeofRecordFmt)

/-- The loop of `__read_record`, on what is left of a file. The calls of
`__add_record` are counted, over all files; `gap` says what the gap of the key
holds in each. The end of the file is not known before an `fread` fails. -/
def readRecordLoop (gap : ℕ → UInt32) (s : DumpState × ℕ) (file : List UInt8) :
    Option (DumpState × ℕ) :=
  match h : freadRecord file with
  | none => some s
  | some (record, rest) =>
      (readOne s.1 (record, gap s.2)).bind fun r =>
        readRecordLoop gap (r.1, s.2 + 1) rest
termination_by file.length
decreasing_by
  unfold freadRecord at h
  split at h
  case isTrue => cases h
  case isFalse hle =>
    cases h
    rw [List.length_drop]
    unfold sizeofRecordFmt at hle ⊢
    omega

/-- The loop of `cmd_dump` over the input files. -/
def readFilesBytes (gap : ℕ → UInt32) (s : DumpState) (files : List (List UInt8)) :
    Option (DumpState × ℕ) :=
  files.foldlM (readRecordLoop gap) (s, 0)

end PktSender.Dump
