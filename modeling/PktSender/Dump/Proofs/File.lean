/-
Trace files read back.

A record is read back from its bytes whatever is in its gaps
(`ofBytes_bytes`), so records are a `Blocks.Codec`; and the loop over the bytes
of a file is the loop over its records (`readFilesBytes_eq`), so what is known
of records holds of bytes.
-/
import PktSender.Dump.File
import PktSender.Dump.Proofs.Rows

namespace PktSender.Dump

open LittleEndian

-- =============================================================== one record

@[simp] theorem length_bytes (gaps : Gaps) (r : RecordFmt) :
    (r.bytes gaps).length = sizeofRecordFmt := by
  simp [RecordFmt.bytes, sizeofRecordFmt]

/-- The record does not depend on the gaps. -/
theorem ofBytes_bytes (gaps : Gaps) (r : RecordFmt) : .ofBytes (r.bytes gaps) = r := by
  have hword1 : r.timestamp.word1.toNat < 256 ^ 8 := r.timestamp.word1.toNat_lt
  unfold RecordFmt.ofBytes RecordFmt.bytes
  simp [readAt_append, readAt_leBytes, readAt_leBytes_self, readAt_cons, readAt_cons_succ]

/-- `struct record_fmt` in a file. -/
def recordCodec : Blocks.Codec RecordFmt UInt8 Gaps where
  size := sizeofRecordFmt
  encode := fun gaps r => r.bytes gaps
  decode := .ofBytes
  size_pos := by decide
  length_encode := length_bytes
  decode_encode := ofBytes_bytes

theorem freadRecord_eq (file : List UInt8) : freadRecord file = recordCodec.read file := rfl

-- ================================================================ the files

/-- Records, each with the gap of the call it is added by, from the `n`-th call
on. -/
def numbered (gap : ℕ → UInt32) (n : ℕ) (rs : List RecordFmt) : List (RecordFmt × UInt32) :=
  (rs.zipIdx n).map fun x => (x.1, gap x.2)

variable {s : DumpState} {gap : ℕ → UInt32}

/-- One turn of the loop, with the count of the calls. -/
def readCounted (gap : ℕ → UInt32) (s : DumpState × ℕ) (record : RecordFmt) :
    Option (DumpState × ℕ) :=
  (readOne s.1 (record, gap s.2)).map fun r => (r.1, s.2 + 1)

theorem readRecordLoop_eq (s : DumpState × ℕ) (file : List UInt8) :
    readRecordLoop gap s file = (recordCodec.readAll file).foldlM (readCounted gap) s := by
  refine recordCodec.foldlM_readAll _ _ ?_ ?_ s file
  · intro s bs hnone
    rw [readRecordLoop]
    split
    next => rfl
    next record rest hsome =>
      rw [freadRecord_eq, hnone] at hsome
      cases hsome
  · intro s bs record rest hsome
    rw [readRecordLoop]
    split
    next hnone =>
      rw [freadRecord_eq, hsome] at hnone
      cases hnone
    next record' rest' hsome' =>
      rw [freadRecord_eq, hsome] at hsome'
      cases hsome'
      rw [readCounted, Option.bind_map]
      rfl

/-- The count is the number of the records. -/
theorem foldlM_readCounted (s : DumpState) (n : ℕ) (rs : List RecordFmt) :
    rs.foldlM (readCounted gap) (s, n)
      = (readRecord s (numbered gap n rs)).map fun s => (s, n + rs.length) := by
  induction rs generalizing s n with
  | nil => rfl
  | cons r rs ih =>
      have hcons : numbered gap n (r :: rs) = (r, gap n) :: numbered gap (n + 1) rs := by
        rw [numbered, List.zipIdx_cons]
        rfl
      rw [List.foldlM_cons, hcons]
      unfold readRecord readCounted
      rw [List.foldlM_cons]
      cases readOne s (r, gap n) with
      | none => rfl
      | some x =>
          refine (ih x.1 (n + 1)).trans ?_
          rw [List.length_cons, Nat.add_right_comm, Nat.add_assoc]
          rfl

/-- Reading files is reading the records that are in them. -/
theorem readFilesBytes_eq (s : DumpState) (files : List (List UInt8)) :
    readFilesBytes gap s files
      = (Lts.trace readOne s (numbered gap 0 (files.flatMap recordCodec.readAll))).map
          fun x => (x.1, (files.flatMap recordCodec.readAll).length) := by
  have hfold : ∀ s : DumpState × ℕ, files.foldlM (readRecordLoop gap) s
      = (files.flatMap recordCodec.readAll).foldlM (readCounted gap) s := by
    induction files with
    | nil => exact fun _ => rfl
    | cons file files ih =>
        intro s
        rw [List.foldlM_cons, List.flatMap_cons, List.foldlM_append, readRecordLoop_eq]
        exact congrArg _ (funext ih)
  rw [readFilesBytes, hfold, foldlM_readCounted, readRecord, ← Lts.trace_map_fst, Option.map_map,
    Nat.zero_add]
  rfl

end PktSender.Dump
