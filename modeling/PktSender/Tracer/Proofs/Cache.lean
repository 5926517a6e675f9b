/-
The trace cache loses and duplicates nothing.

# The cache and the file

`Recorded` is the invariant: the records in the file, followed by those in
the slots below `nb_record`, are one for each call so far that had a time, in
the order of the calls. A call fills the next slot; a full cache and a flush
move the slots to the end of the file. The slots keep what they held, so a
record is only said to match its call (`Matches`): of a timestamp in cycles
the second word of the union is whatever was there.
-/
import PktSender.Lib.LastWrite
import PktSender.Tracer.Basic
import Mathlib.Data.List.Forall2

namespace PktSender.Tracer

open Dump (RecordFmt)

variable {thread : Int32} {s s' : LocalInfo} {env : Env}

-- ================================================================ the file

/-- The file takes everything at once. -/
structure Env.Full (env : Env) : Prop where
  answered : env.fwrites ≠ []
  full : ∀ r ∈ env.fwrites, r = .full

/-- And it opens. -/
structure Env.Ok (env : Env) : Prop extends Env.Full env where
  fopenOk : env.fopenOk = true

/-- One `fwrite` that writes everything is enough. -/
theorem writen_full {α : Type} {fp : List α} {buf : ℕ → α} {len : UInt64} (h : env.Full) :
    writen env.fwrites fp buf len = some (fp ++ (List.range len.toNat).map buf) := by
  obtain ⟨r, rets, hrets⟩ := List.exists_cons_of_ne_nil h.answered
  have hfull : r = .full := h.full r (by simp [hrets])
  unfold writen writenLoop
  rw [hrets, hfull]
  split
  case isTrue =>
    unfold writenLoop
    simp [WritenState.round, Fwrite.written]
  case isFalse hzero =>
    have hzero : len = 0 := UInt64.le_zero_iff.mp (UInt64.not_lt.mp hzero)
    simp [hzero]

/-- Writing the cache appends its first records to the file. -/
theorem writeCache_full (h : env.Full) {fp : List RecordFmt} (hopen : s.fout = some fp)
    (count : UInt32) :
    s.writeCache env count
      = some { s with
          fout := some (fp ++ (List.range count.toNat).map s.cache)
          nbRecord := 0 } := by
  simp [LocalInfo.writeCache, hopen, writen_full h]

-- ============================================================= the invariant

/-- A call of `__record_to_cache` that has a time. -/
structure Timed where
  loc : UInt8
  idx : UInt64
  sender : UInt32
  type : UInt8
  ts : Timespec

def Call.timed : Call → Option Timed
  | .recordToCache loc idx sender type (some ts) _ =>
      some { loc := loc, idx := idx, sender := sender, type := type, ts := ts }
  | _ => none

/-- A record of `thread` for a call. -/
structure Matches (thread : Int32) (t : Timed) (record : RecordFmt) : Prop where
  tid : record.tid = thread
  location : record.location = t.loc
  probeSender : record.probeSender = t.sender
  probeIdx : record.probeIdx = t.idx
  tsType : record.timestamp.tsType = t.type
  cycles : t.type = timestampCycles → record.timestamp.word0 = t.ts.tvNsec
  timespec : t.type = timestampTimespec →
    record.timestamp.word0 = t.ts.tvSec ∧ record.timestamp.word1 = t.ts.tvNsec

/-- The records in the file and then those in the cache. -/
def LocalInfo.records (s : LocalInfo) : List RecordFmt :=
  s.fout.getD [] ++ (List.range s.nbRecord.toNat).map s.cache

/-- The invariant, after calls that had the times `ts`. -/
structure Recorded (thread : Int32) (ts : List Timed) (s : LocalInfo) : Prop where
  nbRecord_lt : s.nbRecord < perThreadCacheSize
  tid : s.fout.isSome → s.tid = thread
  closed : s.fout = none → s.nbRecord = 0
  records : List.Forall₂ (Matches thread) ts s.records

theorem recorded_start : Recorded thread [] LocalInfo.start where
  nbRecord_lt := by decide
  tid := by simp [LocalInfo.start]
  closed := fun _ => rfl
  records := List.Forall₂.nil

-- ================================================================= the calls

theorem fillRecord_matches (record : RecordFmt) (loc : UInt8) (idx : UInt64)
    (sender : UInt32) (type : UInt8) (ts : Timespec) :
    Matches thread { loc := loc, idx := idx, sender := sender, type := type, ts := ts }
      (fillRecord record thread loc idx sender type ts) := by
  constructor
  case tsType =>
    simp only [fillRecord]
    split_ifs <;> rfl
  case cycles =>
    intro htype
    simp only at htype
    simp [fillRecord, htype]
  case timespec =>
    intro htype
    simp only at htype
    have hne : timestampTimespec ≠ timestampCycles := by decide
    simp [fillRecord, htype, hne]
  all_goals rfl

/-- A flush leaves the records where they are or moves them, in order. -/
theorem traceFlush_full (henv : env.Full) (hopen : s.fout.isSome) :
    ∃ s', traceFlush s env = some s' ∧ s'.records = s.records ∧ s'.nbRecord = 0
      ∧ s'.fout.isSome ∧ s'.tid = s.tid := by
  obtain ⟨fp, hfp⟩ := Option.isSome_iff_exists.mp hopen
  unfold traceFlush
  by_cases hzero : s.nbRecord = 0
  · rw [if_pos hzero]
    exact ⟨s, rfl, rfl, hzero, hopen, rfl⟩
  · rw [if_neg hzero, writeCache_full henv hfp]
    refine ⟨_, rfl, ?_, rfl, rfl, rfl⟩
    simp [LocalInfo.records, hfp]

/-- A slot is filled, and a full cache goes to the file. -/
theorem storeRecord_full (henv : env.Full) (hlt : s.nbRecord < perThreadCacheSize)
    (hopen : s.fout.isSome) (loc : UInt8) (idx : UInt64) (sender : UInt32) (type : UInt8)
    (time : Timespec) :
    ∃ s', storeRecord s env s.nbRecord loc idx sender type (some time) = some s'
      ∧ s'.records = s.records ++ [fillRecord (s.cache s.nbRecord.toNat) s.tid loc idx
          sender type time]
      ∧ s'.nbRecord < perThreadCacheSize ∧ s'.fout.isSome ∧ s'.tid = s.tid := by
  obtain ⟨fp, hfp⟩ := Option.isSome_iff_exists.mp hopen
  have hten : s.nbRecord.toNat < 10 := UInt32.lt_iff_toNat_lt.mp hlt
  have hsucc : (s.nbRecord + 1).toNat = s.nbRecord.toNat + 1 := by
    rw [UInt32.toNat_add]
    simp only [UInt32.toNat_one]
    omega
  have hslots := @LastWrite.map_range_update _ s.cache s.nbRecord.toNat
    (fillRecord (s.cache s.nbRecord.toNat) s.tid loc idx sender type time)
  unfold storeRecord
  simp only
  rw [if_neg (UInt32.not_le.mpr hlt)]
  by_cases hfull : s.nbRecord + 1 ≥ perThreadCacheSize
  · have hlast : perThreadCacheSize.toNat = s.nbRecord.toNat + 1 := by
      have hge : 10 ≤ (s.nbRecord + 1).toNat := UInt32.le_iff_toNat_le.mp hfull
      rw [show perThreadCacheSize.toNat = 10 from rfl]
      omega
    have hwrite := writeCache_full (s := { s with
      cache := Function.update s.cache s.nbRecord.toNat
        (fillRecord (s.cache s.nbRecord.toNat) s.tid loc idx sender type time)
      nbRecord := s.nbRecord + 1 }) henv hfp perThreadCacheSize
    rw [if_pos hfull]
    refine ⟨_, hwrite, ?_, ?_, rfl, rfl⟩
    · rw [hlast, hslots]
      simp [LocalInfo.records, hfp]
    · show (0 : UInt32) < perThreadCacheSize
      decide
  · rw [if_neg hfull]
    refine ⟨_, rfl, ?_, UInt32.not_le.mp hfull, hopen, rfl⟩
    simp only [LocalInfo.records, hsucc, hslots]
    rw [List.append_assoc]

theorem traceFlush_recorded {ts : List Timed} (h : Recorded thread ts s) (henv : env.Full) :
    ∃ s', traceFlush s env = some s' ∧ Recorded thread ts s' := by
  cases hopen : s.fout with
  | none => exact ⟨s, if_pos (h.closed hopen), h⟩
  | some fp =>
      have hsome : s.fout.isSome := Option.isSome_iff_exists.mpr ⟨fp, hopen⟩
      obtain ⟨s', hflush, hrecords, hzero, hopen', htid⟩ := traceFlush_full henv hsome
      refine ⟨s', hflush, ?_⟩
      constructor
      case nbRecord_lt =>
        rw [hzero]
        decide
      case tid => exact fun _ => htid.trans (h.tid hsome)
      case closed => exact fun _ => hzero
      case records => exact hrecords ▸ h.records

theorem storeRecord_recorded {ts : List Timed} (h : Recorded thread ts s) (henv : env.Full)
    (hopen : s.fout.isSome) (loc : UInt8) (idx : UInt64) (sender : UInt32) (type : UInt8)
    (time : Timespec) :
    ∃ s', storeRecord s env s.nbRecord loc idx sender type (some time) = some s' ∧
      Recorded thread
        (ts ++ [{ loc := loc, idx := idx, sender := sender, type := type, ts := time }]) s' := by
  obtain ⟨s', hstore, hrecords, hlt, hopen', htid⟩ :=
    storeRecord_full henv h.nbRecord_lt hopen loc idx sender type time
  refine ⟨s', hstore, ?_⟩
  constructor
  case nbRecord_lt => exact hlt
  case tid => exact fun _ => htid.trans (h.tid hopen)
  case closed =>
    intro hnone
    rw [hnone] at hopen'
    cases hopen'
  case records =>
    rw [hrecords, h.tid hopen]
    apply List.rel_append h.records
    exact List.Forall₂.cons (fillRecord_matches _ loc idx sender type time) List.Forall₂.nil

/-- Without a file a call opens one, or leaves the records alone. -/
theorem localInit_recorded {ts : List Timed} (h : Recorded thread ts s) (hclosed : s.fout = none)
    (fopenOk : Bool) : Recorded thread ts (localInit s thread fopenOk).1 := by
  have hrecords := h.records
  simp only [LocalInfo.records, hclosed, Option.getD_none] at hrecords
  cases fopenOk with
  | true =>
      constructor
      case nbRecord_lt => exact h.nbRecord_lt
      case tid => exact fun _ => rfl
      case closed => simp [localInit]
      case records => exact hrecords
  | false =>
      constructor
      case nbRecord_lt => exact h.nbRecord_lt
      case tid => simp [localInit]
      case closed => exact fun _ => h.closed hclosed
      case records => exact hrecords

/-- A call of `__record_to_cache`: its record comes last, unless there is no file. -/
theorem recordToCache_cases {ts : List Timed} (h : Recorded thread ts s) (henv : env.Full)
    (loc : UInt8) (idx : UInt64) (sender : UInt32) (type : UInt8) (time : Timespec) :
    ∃ s', recordToCache s thread env loc idx sender type (some time) = some s' ∧
      (Recorded thread
          (ts ++ [{ loc := loc, idx := idx, sender := sender, type := type, ts := time }]) s' ∨
        (env.fopenOk = false ∧ Recorded thread ts s')) := by
  unfold recordToCache
  simp only
  split
  case isTrue hclosed =>
    have hinit := localInit_recorded h (Option.isNone_iff_eq_none.mp hclosed) env.fopenOk
    cases hok : env.fopenOk with
    | true =>
        -- the first record of the thread opens its file
        rw [hok] at hinit
        obtain ⟨s', hstore, h'⟩ :=
          storeRecord_recorded hinit henv rfl loc idx sender type time
        exact ⟨s', hstore, .inl h'⟩
    | false =>
        rw [hok] at hinit
        exact ⟨_, rfl, .inr ⟨rfl, hinit⟩⟩
  case isFalse hopen =>
    have hopen : s.fout.isSome := Option.isSome_iff_ne_none.mpr (by simpa using hopen)
    obtain ⟨s', hstore, h'⟩ := storeRecord_recorded h henv hopen loc idx sender type time
    exact ⟨s', hstore, .inl h'⟩

/-- Without a time nothing is recorded. -/
theorem recordToCache_none_recorded {ts : List Timed} (h : Recorded thread ts s)
    (loc : UInt8) (idx : UInt64) (sender : UInt32) (type : UInt8) :
    ∃ s', recordToCache s thread env loc idx sender type none = some s' ∧
      Recorded thread ts s' := by
  unfold recordToCache
  simp only
  split
  case isTrue hclosed =>
    have hinit := localInit_recorded h (Option.isNone_iff_eq_none.mp hclosed) env.fopenOk
    split
    · exact ⟨_, rfl, hinit⟩
    · exact ⟨_, rfl, hinit⟩
  case isFalse => exact ⟨s, rfl, h⟩

/-- Every record is of one of the calls. -/
theorem Recorded.mem_records {ts : List Timed} (h : Recorded thread ts s) {r : RecordFmt}
    (hr : r ∈ s.records) : ∃ t ∈ ts, Matches thread t r := by
  obtain ⟨i, hi, rfl⟩ := List.mem_iff_getElem.mp hr
  have hlen := h.records.length_eq
  have hget := h.records.get (i := i) (by omega) hi
  exact ⟨_, List.getElem_mem (by omega), hget⟩

/-- One call: it returns, and its record comes last. -/
theorem Recorded.exec {ts : List Timed} (h : Recorded thread ts s) (call : Call)
    (henv : call.env.Ok) :
    ∃ s', Tracer.exec thread s call = some s' ∧
      Recorded thread (ts ++ call.timed.toList) s' := by
  cases call with
  | traceFlush env =>
      obtain ⟨s', hflush, h'⟩ := traceFlush_recorded h henv.toFull
      refine ⟨s', hflush, ?_⟩
      simpa [Call.timed] using h'
  | recordToCache loc idx sender type time env =>
      cases time with
      | none =>
          obtain ⟨s', hcall, h'⟩ := recordToCache_none_recorded h loc idx sender type
          refine ⟨s', hcall, ?_⟩
          simpa [Call.timed] using h'
      | some time =>
          obtain ⟨s', hcall, h' | ⟨hclosed, -⟩⟩ :=
            recordToCache_cases h henv.toFull loc idx sender type time
          · exact ⟨s', hcall, h'⟩
          · exact absurd hclosed (by simp [henv.fopenOk])

/-- Any calls in one thread, with files that open and take everything: every
call returns and no slot outside the cache is written; and the records in the
file, followed by those in the cache, are one for each call that had a time,
in the order of the calls. -/
theorem cache_lossless (thread : Int32) (calls : List Call)
    (henv : ∀ call ∈ calls, call.env.Ok) :
    ∃ s, Lts.run (exec thread) LocalInfo.start calls = some s ∧
      s.nbRecord < perThreadCacheSize ∧
      List.Forall₂ (Matches thread) (calls.filterMap Call.timed) s.records := by
  have hrun : ∀ ts s, Recorded thread ts s →
      ∃ s', Lts.run (exec thread) s calls = some s' ∧
        Recorded thread (ts ++ calls.filterMap Call.timed) s' := by
    induction calls with
    | nil =>
        intro ts s h
        exact ⟨s, rfl, by simpa using h⟩
    | cons call calls ih =>
        intro ts s h
        obtain ⟨s₁, hcall, h₁⟩ := h.exec call (henv call (by simp))
        obtain ⟨s', hrest, h'⟩ := ih (fun c hc => henv c (by simp [hc])) _ s₁ h₁
        refine ⟨s', ?_, ?_⟩
        · rw [Lts.run_cons, hcall]
          exact hrest
        · cases htimed : call.timed <;> simpa [htimed] using h'
  obtain ⟨s, hrun, h⟩ := hrun [] LocalInfo.start recorded_start
  exact ⟨s, hrun, h.nbRecord_lt, by simpa using h.records⟩

/-- A file that opens and takes everything at once. -/
def Env.good : Env :=
  { fopenOk := true, fwrites := [.full] }

theorem Env.good_ok : Env.good.Ok where
  fopenOk := rfl
  answered := by simp [Env.good]
  full := by simp [Env.good]

/-- Records of both types around a flush and a call without a time. -/
theorem cache_lossless_flush :
    ∃ s, Lts.run (exec 7) LocalInfo.start
        [.recordToCache 0 1 2 timestampTimespec (some ⟨3, 4⟩) .good, .traceFlush .good,
          .recordToCache 1 1 2 timestampTimespec none .good,
          .recordToCache 2 5 6 timestampCycles (some ⟨0, 8⟩) .good] = some s ∧
      s.nbRecord < perThreadCacheSize ∧
      List.Forall₂ (Matches 7) [⟨0, 1, 2, timestampTimespec, ⟨3, 4⟩⟩, ⟨2, 5, 6, timestampCycles, ⟨0, 8⟩⟩]
        s.records := by
  apply cache_lossless 7
  intro call hcall
  have henv : call.env = .good := by
    simp only [List.mem_cons, List.not_mem_nil, or_false] at hcall
    rcases hcall with rfl | rfl | rfl | rfl <;> rfl
  rw [henv]
  exact Env.good_ok

end PktSender.Tracer
