/-
When a TX timestamp that was read is recorded.

The loop of `trace_hw_tx_record` reads once more than it waits: after 1000
failures it makes one last read, with `wait_us` at its limit, and then the
test of `wait_us` takes every outcome of that read for a failure. A success
at an earlier read is recorded, and so is nothing else (`readTx_cases`).
-/
import PktSender.Tracer.Proofs.Cache

namespace PktSender.Tracer

open Dump (RecordFmt)
open Probe (PktFmt)

variable {thread : Int32} {s s' : LocalInfo} {env env' : Env}

-- =============================================================== the reads

section Reads

variable {reads : ℕ → Option Timespec} {k : ℕ} {ts : Timespec}

theorem readTx_again (hfail : reads k = none) (hlt : k < 1000) :
    readTx reads k = readTx reads (k + 1) := by
  have hafter : afterRead k (reads k) = .again (k + 1) := by
    rw [hfail]
    exact if_pos hlt
  rw [readTx]
  split
  next heq =>
    rw [hafter] at heq
    cases heq
    rfl
  next heq =>
    rw [hafter] at heq
    cases heq
  next heq =>
    rw [hafter] at heq
    cases heq

theorem readTx_record (hread : reads k = some ts) (hne : k ≠ 1000) :
    readTx reads k = (k + 1, some ts) := by
  have hafter : afterRead k (reads k) = .record ts := by
    rw [hread]
    exact if_neg hne
  rw [readTx]
  split
  next heq =>
    rw [hafter] at heq
    cases heq
  next heq =>
    rw [hafter] at heq
    cases heq
  next heq =>
    rw [hafter] at heq
    cases heq
    rfl

/-- The last read counts for nothing. -/
theorem readTx_last (reads : ℕ → Option Timespec) : readTx reads 1000 = (1001, none) := by
  have hafter : afterRead 1000 (reads 1000) = .failed := by
    cases reads 1000 with
    | none =>
        rw [afterRead]
        exact if_neg (Nat.lt_irrefl _)
    | some ts =>
        rw [afterRead]
        exact if_pos rfl
  rw [readTx]
  split
  next heq =>
    rw [hafter] at heq
    cases heq
  next => rfl
  next heq =>
    rw [hafter] at heq
    cases heq

/-- Failures are waited out. -/
theorem readTx_skip (hfail : ∀ j < k, reads j = none) (hle : k ≤ 1000) :
    readTx reads 0 = readTx reads k := by
  induction k with
  | zero => rfl
  | succ k ih =>
      have hbefore := ih (fun j hj => hfail j (Nat.lt_succ_of_lt hj)) (Nat.le_of_succ_le hle)
      exact hbefore.trans (readTx_again (hfail k (Nat.lt_succ_self k)) hle)

/-- The loop ends with the first success among 1000 reads, or after 1001. -/
theorem readTx_cases (reads : ℕ → Option Timespec) :
    (∃ k ts, k < 1000 ∧ (∀ j < k, reads j = none) ∧ reads k = some ts
        ∧ readTx reads 0 = (k + 1, some ts))
      ∨ ((∀ j < 1000, reads j = none) ∧ readTx reads 0 = (1001, none)) := by
  by_cases hex : ∃ k, k < 1000 ∧ (reads k).isSome
  · left
    obtain ⟨hlt, hsome⟩ := Nat.find_spec hex
    obtain ⟨ts, hts⟩ := Option.isSome_iff_exists.mp hsome
    have hbefore : ∀ j < Nat.find hex, reads j = none := by
      intro j hj
      by_contra hne
      exact Nat.find_min hex hj ⟨hj.trans hlt, Option.isSome_iff_ne_none.mpr hne⟩
    refine ⟨Nat.find hex, ts, hlt, hbefore, hts, ?_⟩
    rw [readTx_skip hbefore hlt.le, readTx_record hts hlt.ne]
  · right
    have hnone : ∀ j < 1000, reads j = none := by
      intro j hj
      by_contra hne
      exact hex ⟨j, hj, Option.isSome_iff_ne_none.mpr hne⟩
    refine ⟨hnone, ?_⟩
    rw [readTx_skip hnone (Nat.le_refl _), readTx_last]

end Reads

-- ===================================================== the state of a thread

/-- What holds of a thread whatever its files do. -/
structure Sound (thread : Int32) (s : LocalInfo) : Prop where
  nbRecord_lt : s.nbRecord < perThreadCacheSize
  tid : s.fout.isSome → s.tid = thread

theorem sound_start : Sound thread LocalInfo.start where
  nbRecord_lt := by decide
  tid := by simp [LocalInfo.start]

/-- Writing the cache empties it, and needs a file. -/
theorem writeCache_sound {count : UInt32} (htid : s.fout.isSome → s.tid = thread)
    (h : s.writeCache env count = some s') : Sound thread s' := by
  obtain ⟨fp, hfp, hwrite⟩ := Option.bind_eq_some_iff.mp h
  obtain ⟨file, -, rfl⟩ := Option.map_eq_some_iff.mp hwrite
  constructor
  case nbRecord_lt =>
    show (0 : UInt32) < perThreadCacheSize
    decide
  case tid => exact fun _ => htid (Option.isSome_iff_exists.mpr ⟨fp, hfp⟩)

theorem storeRecord_sound {loc type : UInt8} {idx : UInt64} {sender : UInt32}
    {ts : Option Timespec} (hs : Sound thread s)
    (h : storeRecord s env s.nbRecord loc idx sender type ts = some s') : Sound thread s' := by
  cases ts with
  | none =>
      cases h
      exact hs
  | some ts =>
      simp only [storeRecord] at h
      rw [if_neg (UInt32.not_le.mpr hs.nbRecord_lt)] at h
      split at h
      next =>
        refine writeCache_sound ?_ h
        exact fun hopen => hs.tid hopen
      next hroom =>
        cases h
        exact ⟨UInt32.not_le.mp hroom, hs.tid⟩

theorem localInit_sound (hs : Sound thread s) (fopenOk : Bool) :
    Sound thread (localInit s thread fopenOk).1 := by
  cases fopenOk with
  | true => exact ⟨hs.nbRecord_lt, fun _ => rfl⟩
  | false => exact ⟨hs.nbRecord_lt, fun h => by cases h⟩

theorem exec_sound {call : Call} (hs : Sound thread s) (h : exec thread s call = some s') :
    Sound thread s' := by
  cases call with
  | traceFlush env =>
      change traceFlush s env = some s' at h
      unfold traceFlush at h
      split at h
      next =>
        cases h
        exact hs
      next => exact writeCache_sound hs.tid h
  | recordToCache loc idx sender type ts env =>
      change recordToCache s thread env loc idx sender type ts = some s' at h
      unfold recordToCache at h
      simp only at h
      have hinit := localInit_sound hs env.fopenOk
      have hsame : (localInit s thread env.fopenOk).1.nbRecord = s.nbRecord := by
        cases env.fopenOk with
        | true => rfl
        | false => rfl
      split at h
      next =>
        split at h
        next =>
          cases h
          exact hinit
        next =>
          rw [← hsame] at h
          exact storeRecord_sound hinit h
      next => exact storeRecord_sound hs h

-- ============================================================== the property

/-- The call that would record this time for this packet. -/
def timedOf (fmt : PktFmt) (ts : Timespec) : Timed :=
  { loc := locHardwareTx, idx := fmt.probeIdx, sender := fmt.probeSender
    type := timestampTimespec, ts := ts }

/-- The value of the last read is recorded, if it succeeded, and failure is
reported if no read did. -/
structure ReadRecorded (thread : Int32) (fmt : PktFmt) (reads : ℕ → Option Timespec)
    (s : LocalInfo) (out : TxRecord) : Prop where
  recorded : ∀ ts, reads (out.reads - 1) = some ts →
    ∃ record, out.info.records = s.records ++ [record] ∧ Matches thread (timedOf fmt ts) record
  unrecorded : reads (out.reads - 1) = none → out.info.records = s.records
  reported : out.failed = true ↔ ∀ k < out.reads, reads k = none

/-- With an open file the record goes to its end. -/
theorem recordHwTx_full (hs : Sound thread s) (hopen : s.fout.isSome) (henv : env.Full)
    (henv' : env'.Full) (fmt : PktFmt) (ts : Timespec) :
    ∃ s' record, recordHwTx s thread env env' (some fmt) ts = some s'
      ∧ s'.records = s.records ++ [record] ∧ Matches thread (timedOf fmt ts) record := by
  obtain ⟨s₁, hstore, hrecords, -, hopen₁, -⟩ := storeRecord_full henv hs.nbRecord_lt hopen
    locHardwareTx fmt.probeIdx fmt.probeSender timestampTimespec ts
  obtain ⟨s₂, hflush, hkept, -⟩ := traceFlush_full henv' hopen₁
  have hrecord : recordToCache s thread env locHardwareTx fmt.probeIdx fmt.probeSender
      timestampTimespec (some ts) = some s₁ := by
    unfold recordToCache
    simp only
    rw [if_neg (Option.isNone_iff_eq_none.not.mpr (Option.isSome_iff_ne_none.mp hopen))]
    exact hstore
  refine ⟨s₂, _, ?_, hkept.trans hrecords, ?_⟩
  · simp only [recordHwTx, hrecord, Option.bind_some]
    exact hflush
  · rw [hs.tid hopen]
    exact fillRecord_matches _ _ _ _ _ _

/-- When a TX timestamp that was read is recorded. In every state a thread can
reach with its file open, a call makes between 1 and 1001 reads and is right
about them except when the last of 1001 is the first to succeed. -/
theorem read_recorded_iff {calls : List Call}
    (hrun : Lts.run (exec thread) LocalInfo.start calls = some s) (hopen : s.fout.isSome)
    (hthread : 0 ≤ thread) (henv : env.Full) (henv' : env'.Full) (fmt : PktFmt)
    (reads : ℕ → Option Timespec) :
    ∃ out, traceHwTxRecord s thread env env' reads (some fmt) = some out
      ∧ 1 ≤ out.reads ∧ out.reads ≤ 1001
      ∧ (ReadRecorded thread fmt reads s out
          ↔ ¬ ((∀ k < 1000, reads k = none) ∧ (reads 1000).isSome)) := by
  have hs : Sound thread s := Lts.run_invariant_all exec_sound sound_start hrun
  have htid : ¬ s.tid < 0 := Int32.not_lt.mpr (hs.tid hopen ▸ hthread)
  rcases readTx_cases reads with ⟨k, ts, hlt, hbefore, hread, hloop⟩ | ⟨hnone, hloop⟩
  · obtain ⟨s', record, hcall, hrecords, hmatches⟩ :=
      recordHwTx_full hs hopen henv henv' fmt ts
    refine ⟨{ reads := k + 1, failed := false, info := s' }, ?_, Nat.succ_pos _,
      (Nat.succ_lt_succ hlt).le, ?_⟩
    · unfold traceHwTxRecord
      rw [if_neg htid, hloop]
      simp only
      rw [hcall]
      rfl
    · refine iff_of_true ⟨?_, ?_, ?_⟩ fun hlast => ?_
      · intro ts' hts'
        obtain rfl : ts = ts' := Option.some.inj (hread.symm.trans hts')
        exact ⟨record, hrecords, hmatches⟩
      · intro hfail
        cases hread.symm.trans hfail
      · refine iff_of_false (by simp) fun hall => ?_
        cases hread.symm.trans (hall k (Nat.lt_succ_self k))
      · cases hread.symm.trans (hlast.1 k hlt)
  · refine ⟨{ reads := 1001, failed := true, info := s }, ?_, Nat.succ_pos _, Nat.le_refl _, ?_⟩
    · unfold traceHwTxRecord
      rw [if_neg htid, hloop]
    · cases hlast : reads 1000 with
      | none =>
          refine iff_of_true ⟨?_, fun _ => rfl, ?_⟩ fun h => by cases h.2
          · intro ts hts
            cases hlast.symm.trans hts
          · refine iff_of_true rfl fun k hk => ?_
            rcases Nat.lt_or_ge k 1000 with hlt | hge
            · exact hnone k hlt
            · obtain rfl : k = 1000 := Nat.le_antisymm (Nat.le_of_lt_succ hk) hge
              exact hlast
      | some ts =>
          refine iff_of_false (fun h => ?_) fun h => h ⟨hnone, rfl⟩
          -- the record would have to be there
          obtain ⟨record, hrecords, -⟩ := h.recorded ts hlast
          have hlen := congrArg List.length hrecords
          rw [List.length_append, List.length_singleton] at hlen
          exact absurd hlen (Nat.ne_of_lt (Nat.lt_succ_self _))

/-- A thread that has opened its file. -/
theorem run_opens :
    ∃ s, Lts.run (exec 7) LocalInfo.start
        [.recordToCache 0 1 2 timestampTimespec none .good] = some s ∧ s.fout = some [] :=
  ⟨_, rfl, rfl⟩

/-- A probe in such a thread. -/
def probe0 : PktFmt :=
  { srcMac := fun _ => 0, dstMac := fun _ => 0, etherType := 0xF788, ptpMsgId := 0
    ptpVersion := 2, probeIdx := 5, probeSender := 1, probeMagic := 0x12345678 }

/-- The NIC has the time at the read with this number. -/
def readyAt (n k : ℕ) : Option Timespec := if k = n then some ⟨1, 2⟩ else none

theorem read_recorded_iff_probe0 :
    ∃ s out, Lts.run (exec 7) LocalInfo.start
        [.recordToCache 0 1 2 timestampTimespec none .good] = some s
      ∧ traceHwTxRecord s 7 .good .good (readyAt 3) (some probe0) = some out
      ∧ (ReadRecorded 7 probe0 (readyAt 3) s out
          ↔ ¬ ((∀ k < 1000, readyAt 3 k = none) ∧ (readyAt 3 1000).isSome)) := by
  obtain ⟨s, hrun, hopen⟩ := run_opens
  obtain ⟨out, hcall, -, -, hiff⟩ := read_recorded_iff hrun (by rw [hopen]; rfl) (by decide)
    Env.good_ok.toFull Env.good_ok.toFull probe0 (readyAt 3)
  exact ⟨s, out, hrun, hcall, hiff⟩

/-- A time that is there for the last read is read, and reported as a failure. -/
theorem last_read_lost :
    ∃ s out, Lts.run (exec 7) LocalInfo.start
        [.recordToCache 0 1 2 timestampTimespec none .good] = some s
      ∧ traceHwTxRecord s 7 .good .good (readyAt 1000) (some probe0) = some out
      ∧ readyAt 1000 (out.reads - 1) = some ⟨1, 2⟩ ∧ out.failed = true
      ∧ out.info.records = s.records ∧ ¬ ReadRecorded 7 probe0 (readyAt 1000) s out := by
  obtain ⟨s, hrun, hopen⟩ := run_opens
  have hs : Sound 7 s := Lts.run_invariant_all exec_sound sound_start hrun
  have htid : ¬ s.tid < 0 := by
    rw [hs.tid (by rw [hopen]; rfl)]
    decide
  have hfail : ∀ j < 1000, readyAt 1000 j = none := fun j hj => if_neg hj.ne
  have hloop : readTx (readyAt 1000) 0 = (1001, none) := by
    rw [readTx_skip hfail (Nat.le_refl _), readTx_last]
  refine ⟨s, { reads := 1001, failed := true, info := s }, hrun, ?_, rfl, rfl, rfl, ?_⟩
  · unfold traceHwTxRecord
    rw [if_neg htid, hloop]
  · intro h
    exact absurd (h.reported.mp rfl 1000 (Nat.lt_succ_self _)) (by decide)

end PktSender.Tracer
