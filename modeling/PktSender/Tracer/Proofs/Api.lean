/-
Whatever a thread calls, its trace is a log behind a file that is opened once.

# The log

`TraceLog` is the purpose of the tracer: entries are appended, in the order of
the calls, once a file was opened. Opening is attempted by the entries until it
succeeds; a failed attempt silences the thread from its next call on, but not
the rest of the burst it happens in (`TraceLog.attempt`). `TraceLog.step` says
which entries a call makes.

# The refinement

`Logs` relates a thread to its log: the records in the file and then those in
the cache are the entries, one for one. `trace_hw_tx_record` and
`trace_hw_rx_record` leave nothing in the cache (`apiExec_flushes`), so in a
thread that does not call `trace_handler` the file alone is the log.
-/
import PktSender.Tracer.Api
import PktSender.Tracer.Proofs.HwTx

namespace PktSender.Tracer

open Dump (RecordFmt)
open Probe (Mbuf PktFmt rteCpuToBe16 probePktEtherType)

variable {cfg : ApiCfg} {s s' : LocalInfo} {env : Env}

-- ================================================================= the log

/-- Where the trace file is. -/
inductive FileState where
  | unopened
  | failed
  | opened
deriving DecidableEq

structure TraceLog where
  file : FileState
  entries : List Timed

namespace TraceLog

def start : TraceLog := { file := .unopened, entries := [] }

/-- The file is opened if it is not open yet. -/
def openFile (l : TraceLog) (fopenOk : Bool) : TraceLog :=
  { l with file := if l.file = .opened ∨ fopenOk then .opened else .failed }

/-- Without an open file entries are dropped. -/
def append (l : TraceLog) (es : List Timed) : TraceLog :=
  if l.file = .opened then { l with entries := l.entries ++ es } else l

/-- An entry, and whether the file opens if it is not open yet. -/
def attempt (l : TraceLog) (x : Timed × Bool) : TraceLog := (l.openFile x.2).append [x.1]

theorem openFile_opened {l : TraceLog} (h : l.file = .opened) (fopenOk : Bool) :
    l.openFile fopenOk = l := by
  rw [openFile, if_pos (.inl h), ← h]

theorem openFile_true (l : TraceLog) : l.openFile true = { l with file := .opened } := by
  rw [openFile, if_pos (.inr rfl)]

theorem openFile_false {l : TraceLog} (h : l.file ≠ .opened) :
    l.openFile false = { l with file := .failed } := by
  rw [openFile, if_neg (by simp [h])]

theorem append_opened {l : TraceLog} (h : l.file = .opened) (es : List Timed) :
    l.append es = { file := .opened, entries := l.entries ++ es } := by
  rw [append, if_pos h, ← h]

theorem append_failed {l : TraceLog} (h : l.file = .failed) (es : List Timed) :
    l.append es = l :=
  if_neg (by simp [h])

theorem attempt_opened {l : TraceLog} (h : l.file = .opened) (x : Timed × Bool) :
    l.attempt x = { file := .opened, entries := l.entries ++ [x.1] } := by
  rw [attempt, openFile_opened h, append_opened h]

/-- Several entries, of a burst. -/
def attempts (l : TraceLog) (xs : List (Timed × Bool)) : TraceLog := xs.foldl attempt l

end TraceLog

/-- The probes of a burst. -/
def probesOf {α : Type} (pkts : List (Mbuf × α)) : List (Mbuf × α) :=
  pkts.filter fun x => x.1.data.etherType = rteCpuToBe16 probePktEtherType

/-- An entry of `trace_handler`. -/
def handlerTime (cfg : ApiCfg) (loc : UInt8) (ts : Timespec) (fmt : PktFmt) : Timed :=
  { loc := loc, idx := fmt.probeIdx, sender := fmt.probeSender, type := cfg.tsType, ts := ts }

/-- The entries of a burst in `trace_handler`: its probes, all with the time
that is read for the first of them. -/
def handlerTimes (cfg : ApiCfg) (loc : UInt8) (pkts : List (Mbuf × HandlerAnswer)) :
    List Timed :=
  match probesOf pkts with
  | [] => []
  | x :: probes =>
      (x :: probes).map fun y =>
        handlerTime cfg loc (readClock cfg { tvSec := 0, tvNsec := 0 } x.2) y.1.data

/-- The entries of a burst in `trace_hw_rx_record`: its flagged packets whose
time could be read. -/
def rxTimes (cfg : ApiCfg) (pkts : List (Mbuf × RxAnswer)) : List (Timed × Bool) :=
  (pkts.filter fun x => x.1.olFlags &&& cfg.pktRxIeee1588Tmst ≠ 0).filterMap fun x =>
    x.2.ts.map fun ts =>
      ({ loc := locHardwareRx, idx := x.1.data.probeIdx, sender := x.1.data.probeSender
         type := timestampTimespec, ts := ts }, x.2.env.fopenOk)

/-- The entry of `trace_hw_tx_record`; without a packet it is for the probe 0
of port 0, as nothing sets `last_idx` and `last_port`. -/
def txTime (pkt : Option PktFmt) (ts : Timespec) : Timed :=
  { loc := locHardwareTx
    idx := (pkt.map (·.probeIdx)).getD 0
    sender := (pkt.map (·.probeSender)).getD 0
    type := timestampTimespec
    ts := ts }

/-- What a call does to the log. -/
def TraceLog.step (cfg : ApiCfg) (l : TraceLog) : ApiCall → TraceLog
  | .traceFlush _ => l
  | .traceHandler fopenOk loc pkts =>
      if l.file = .failed then l
      else (l.openFile fopenOk).append (handlerTimes cfg loc pkts)
  | .traceHwTxRecord env _ reads pkt =>
      if l.file = .failed then l
      else
        match (readTx reads 0).2 with
        | none => l
        | some ts => l.attempt (txTime pkt ts, env.fopenOk)
  | .traceHwRxRecord pkts =>
      if l.file = .failed then l else l.attempts (rxTimes cfg pkts)

-- ============================================================= the relation

/-- A thread and its log. -/
structure Logs (thread : Int32) (l : TraceLog) (s : LocalInfo) : Prop
    extends Recorded thread l.entries s where
  opened : l.file = .opened ↔ s.fout.isSome
  failed : l.file = .failed ↔ s.tid < 0
  lastIdx : s.lastIdx = 0
  lastPort : s.lastPort = 0

variable {thread : Int32} {l : TraceLog}

theorem logs_start : Logs thread .start LocalInfo.start where
  toRecorded := recorded_start
  opened := by simp [TraceLog.start, LocalInfo.start]
  failed := by
    refine iff_of_false (by simp [TraceLog.start]) ?_
    show ¬ (0 : Int32) < 0
    decide
  lastIdx := rfl
  lastPort := rfl

/-- With a file that is open. -/
theorem Recorded.logs {es : List Timed} (h : Recorded thread es s) (hopen : s.fout.isSome)
    (hthread : 0 ≤ thread) (hidx : s.lastIdx = 0) (hport : s.lastPort = 0) :
    Logs thread { file := .opened, entries := es } s where
  toRecorded := h
  opened := iff_of_true rfl hopen
  failed := by
    refine iff_of_false (by simp) ?_
    rw [h.tid hopen]
    exact Int32.not_lt.mpr hthread
  lastIdx := hidx
  lastPort := hport

/-- After a failed attempt to open it. -/
theorem Recorded.logsFailed {es : List Timed} (h : Recorded thread es s) (hclosed : s.fout = none)
    (htid : s.tid = -1) (hidx : s.lastIdx = 0) (hport : s.lastPort = 0) :
    Logs thread { file := .failed, entries := es } s where
  toRecorded := h
  opened := iff_of_false (by simp) (by simp [hclosed])
  failed := by
    refine iff_of_true rfl ?_
    rw [htid]
    decide
  lastIdx := hidx
  lastPort := hport

theorem writeCache_last {count : UInt32} (h : s.writeCache env count = some s') :
    s'.lastIdx = s.lastIdx ∧ s'.lastPort = s.lastPort := by
  obtain ⟨fp, -, hwrite⟩ := Option.bind_eq_some_iff.mp h
  obtain ⟨file, -, rfl⟩ := Option.map_eq_some_iff.mp hwrite
  exact ⟨rfl, rfl⟩

theorem storeRecord_last {slot : UInt32} {loc type : UInt8} {idx : UInt64} {sender : UInt32}
    {time : Timespec}
    (h : storeRecord s env slot loc idx sender type (some time) = some s') :
    s'.lastIdx = s.lastIdx ∧ s'.lastPort = s.lastPort := by
  simp only [storeRecord] at h
  split at h
  next => cases h
  next =>
    split at h
    next =>
      have hlast := writeCache_last h
      exact hlast
    next =>
      cases h
      exact ⟨rfl, rfl⟩

/-- A flush changes nothing in the log, and leaves nothing in the cache. -/
theorem Logs.flush (h : Logs thread l s) (henv : env.Full) :
    ∃ s', traceFlush s env = some s' ∧ Logs thread l s' ∧ s'.nbRecord = 0 := by
  cases hopen : s.fout with
  | none => exact ⟨s, if_pos (h.closed hopen), h, h.closed hopen⟩
  | some fp =>
      have hsome : s.fout.isSome := Option.isSome_iff_exists.mpr ⟨fp, hopen⟩
      obtain ⟨s', hflush, h'⟩ := traceFlush_recorded h.toRecorded henv
      obtain ⟨s'', hflush', -, hzero, hopen', htid⟩ := traceFlush_full henv hsome
      obtain rfl : s' = s'' := Option.some.inj (hflush.symm.trans hflush')
      have hlast : s'.lastIdx = s.lastIdx ∧ s'.lastPort = s.lastPort := by
        unfold traceFlush at hflush
        split at hflush
        next =>
          cases hflush
          exact ⟨rfl, rfl⟩
        next => exact writeCache_last hflush
      refine ⟨s', hflush, ⟨h', ?_, ?_, hlast.1.trans h.lastIdx, hlast.2.trans h.lastPort⟩, hzero⟩
      · exact h.opened.trans (iff_of_true hsome hopen')
      · rw [htid]
        exact h.failed

-- ================================================================== entries

/-- A record in an open file. -/
theorem Recorded.store {es : List Timed} (h : Recorded thread es s) (hopen : s.fout.isSome)
    (hthread : 0 ≤ thread) (hidx : s.lastIdx = 0) (hport : s.lastPort = 0) (henv : env.Full)
    (x : Timed) :
    ∃ s', storeRecord s env s.nbRecord x.loc x.idx x.sender x.type (some x.ts) = some s'
      ∧ Logs thread { file := .opened, entries := es ++ [x] } s' := by
  obtain ⟨s', hstore, h'⟩ :=
    storeRecord_recorded h henv hopen x.loc x.idx x.sender x.type x.ts
  obtain ⟨s'', hstore', -, -, hopen', -⟩ :=
    storeRecord_full henv h.nbRecord_lt hopen x.loc x.idx x.sender x.type x.ts
  obtain rfl : s' = s'' := Option.some.inj (hstore.symm.trans hstore')
  obtain ⟨hidx', hport'⟩ := storeRecord_last hstore
  exact ⟨s', hstore, h'.logs hopen' hthread (hidx'.trans hidx) (hport'.trans hport)⟩

/-- A call of `__record_to_cache` that has a time is an entry. -/
theorem Logs.attempt (h : Logs thread l s) (hthread : 0 ≤ thread) (henv : env.Full)
    (x : Timed) :
    ∃ s', recordToCache s thread env x.loc x.idx x.sender x.type (some x.ts) = some s'
      ∧ Logs thread (l.attempt (x, env.fopenOk)) s' := by
  unfold recordToCache
  simp only
  split
  case isTrue hclosed =>
    have hnone : s.fout = none := Option.isNone_iff_eq_none.mp hclosed
    have hfile : l.file ≠ .opened := by
      rw [ne_eq, h.opened, hnone]
      decide
    have hinit := localInit_recorded h.toRecorded hnone env.fopenOk
    cases hok : env.fopenOk with
    | true =>
        rw [hok] at hinit
        rw [TraceLog.attempt, TraceLog.openFile_true, TraceLog.append_opened rfl]
        exact hinit.store rfl hthread h.lastIdx h.lastPort henv x
    | false =>
        rw [hok] at hinit
        rw [TraceLog.attempt, TraceLog.openFile_false hfile, TraceLog.append_failed rfl]
        exact ⟨_, rfl, hinit.logsFailed rfl rfl h.lastIdx h.lastPort⟩
  case isFalse hopen =>
    have hsome : s.fout.isSome := Option.isSome_iff_ne_none.mpr (by simpa using hopen)
    rw [TraceLog.attempt_opened (h.opened.mpr hsome)]
    exact h.toRecorded.store hsome hthread h.lastIdx h.lastPort henv x

-- ================================================================== a burst

theorem rxTimes_cons (x : Mbuf × RxAnswer) (pkts : List (Mbuf × RxAnswer)) :
    rxTimes cfg (x :: pkts) = rxTimes cfg [x] ++ rxTimes cfg pkts := by
  unfold rxTimes
  rw [← List.filterMap_append, ← List.filter_append, List.singleton_append]

/-- A packet of a received burst. -/
theorem Logs.rxRound (h : Logs cfg.gettid l s) (hthread : 0 ≤ cfg.gettid)
    {x : Mbuf × RxAnswer} (henv : x.2.env.Full) (henv' : x.2.env'.Full) :
    ∃ s', rxRound cfg s x = some s' ∧ Logs cfg.gettid (l.attempts (rxTimes cfg [x])) s'
      ∧ (s.nbRecord = 0 → s'.nbRecord = 0) := by
  unfold Tracer.rxRound rxTimes
  by_cases hflag : x.1.olFlags &&& cfg.pktRxIeee1588Tmst = 0
  · rw [if_pos hflag, List.filter_cons_of_neg (by simpa using hflag)]
    exact ⟨s, rfl, h, id⟩
  · rw [if_neg hflag, List.filter_cons_of_pos (by simpa using hflag)]
    cases hts : x.2.ts with
    | none =>
        obtain ⟨s', hflush, h', hzero⟩ := h.flush henv'
        refine ⟨s', hflush, ?_, fun _ => hzero⟩
        simpa [hts, TraceLog.attempts] using h'
    | some ts =>
        obtain ⟨s₁, hcall, h₁⟩ := h.attempt hthread henv
          { loc := locHardwareRx, idx := x.1.data.probeIdx, sender := x.1.data.probeSender
            type := timestampTimespec, ts := ts }
        obtain ⟨s', hflush, h', hzero⟩ := h₁.flush henv'
        refine ⟨s', ?_, ?_, fun _ => hzero⟩
        · simp only
          rw [hcall, Option.bind_some, hflush]
        · simpa [hts, TraceLog.attempts] using h'

theorem Logs.rxLoop {pkts : List (Mbuf × RxAnswer)} (h : Logs cfg.gettid l s)
    (hthread : 0 ≤ cfg.gettid) (henv : ∀ x ∈ pkts, x.2.env.Full ∧ x.2.env'.Full) :
    ∃ s', pkts.foldlM (Tracer.rxRound cfg) s = some s'
      ∧ Logs cfg.gettid (l.attempts (rxTimes cfg pkts)) s'
      ∧ (s.nbRecord = 0 → s'.nbRecord = 0) := by
  induction pkts generalizing l s with
  | nil => exact ⟨s, rfl, h, id⟩
  | cons x pkts ih =>
      obtain ⟨⟨hx, hx'⟩, hpkts⟩ := List.forall_mem_cons.mp henv
      obtain ⟨s₁, hround, h₁, hzero₁⟩ := h.rxRound hthread hx hx'
      obtain ⟨s', hloop, h', hzero⟩ := ih h₁ hpkts
      refine ⟨s', ?_, ?_, fun hz => hzero (hzero₁ hz)⟩
      · rw [List.foldlM_cons, hround]
        exact hloop
      · rw [rxTimes_cons, TraceLog.attempts, List.foldl_append]
        exact h'

/-- A packet that is no probe. -/
theorem handlerRound_other {loc : UInt8} {st : HandlerState} {x : Mbuf × HandlerAnswer}
    (hne : x.1.data.etherType ≠ rteCpuToBe16 probePktEtherType) :
    handlerRound cfg loc st x = some st :=
  if_pos hne

/-- A probe. -/
theorem Logs.handlerRound {loc : UInt8} {st : HandlerState} {x : Mbuf × HandlerAnswer}
    (h : Logs cfg.gettid l st.info) (hopen : l.file = .opened) (hthread : 0 ≤ cfg.gettid)
    (henv : x.2.env.Full) (hprobe : x.1.data.etherType = rteCpuToBe16 probePktEtherType) :
    ∃ info, Tracer.handlerRound cfg loc st x = some { st.read cfg x.2 with info := info }
      ∧ Logs cfg.gettid
          { file := .opened
            entries := l.entries ++ [handlerTime cfg loc (st.read cfg x.2).ts x.1.data] }
          info := by
  have hinfo : (st.read cfg x.2).info = st.info := by
    unfold HandlerState.read
    split <;> rfl
  obtain ⟨info, hcall, h'⟩ := h.attempt hthread henv
    (handlerTime cfg loc (st.read cfg x.2).ts x.1.data)
  rw [TraceLog.attempt_opened hopen] at h'
  refine ⟨info, ?_, h'⟩
  unfold Tracer.handlerRound
  simp only
  rw [if_neg (not_not.mpr hprobe), hinfo, show
    recordToCache st.info cfg.gettid x.2.env loc x.1.data.probeIdx x.1.data.probeSender
      cfg.tsType (some (st.read cfg x.2).ts) = some info from hcall]
  rfl

theorem probesOf_cons_other {α : Type} {x : Mbuf × α} (pkts : List (Mbuf × α))
    (hne : x.1.data.etherType ≠ rteCpuToBe16 probePktEtherType) :
    probesOf (x :: pkts) = probesOf pkts :=
  List.filter_cons_of_neg (by simpa using hne)

theorem probesOf_cons_probe {α : Type} {x : Mbuf × α} (pkts : List (Mbuf × α))
    (hprobe : x.1.data.etherType = rteCpuToBe16 probePktEtherType) :
    probesOf (x :: pkts) = x :: probesOf pkts :=
  List.filter_cons_of_pos (by simpa using hprobe)

/-- From the first probe on, every probe has its time. -/
theorem Logs.handlerLoop_read {loc : UInt8} {st : HandlerState}
    {pkts : List (Mbuf × HandlerAnswer)} (h : Logs cfg.gettid l st.info)
    (hopen : l.file = .opened) (hthread : 0 ≤ cfg.gettid) (hread : st.isRead = true)
    (henv : ∀ x ∈ pkts, x.2.env.Full) :
    ∃ st', pkts.foldlM (Tracer.handlerRound cfg loc) st = some st'
      ∧ Logs cfg.gettid
          { file := .opened
            entries := l.entries
              ++ (probesOf pkts).map fun y => handlerTime cfg loc st.ts y.1.data }
          st'.info := by
  induction pkts generalizing l st with
  | nil =>
      refine ⟨st, rfl, ?_⟩
      rw [probesOf, List.filter_nil, List.map_nil, List.append_nil, ← hopen]
      exact h
  | cons x pkts ih =>
      obtain ⟨hx, hpkts⟩ := List.forall_mem_cons.mp henv
      by_cases hprobe : x.1.data.etherType = rteCpuToBe16 probePktEtherType
      · have hsame : st.read cfg x.2 = st := by
          unfold HandlerState.read
          rw [hread]
          rfl
        obtain ⟨info, hround, h₁⟩ := h.handlerRound hopen hthread hx hprobe
        rw [hsame] at hround h₁
        obtain ⟨st', hloop, h'⟩ := @ih _ { st with info := info } h₁ rfl hread hpkts
        refine ⟨st', ?_, ?_⟩
        · rw [List.foldlM_cons, hround]
          exact hloop
        · rw [probesOf_cons_probe pkts hprobe, List.map_cons, ← List.singleton_append,
            ← List.append_assoc]
          exact h'
      · rw [List.foldlM_cons, handlerRound_other hprobe, probesOf_cons_other pkts hprobe]
        exact ih h hopen hread hpkts

/-- The whole burst. -/
theorem Logs.handlerLoop {loc : UInt8} {pkts : List (Mbuf × HandlerAnswer)}
    (h : Logs cfg.gettid l s) (hopen : l.file = .opened) (hthread : 0 ≤ cfg.gettid)
    (henv : ∀ x ∈ pkts, x.2.env.Full) :
    ∃ st', pkts.foldlM (Tracer.handlerRound cfg loc)
        { info := s, ts := { tvSec := 0, tvNsec := 0 }, isRead := false } = some st'
      ∧ Logs cfg.gettid
          { file := .opened, entries := l.entries ++ handlerTimes cfg loc pkts } st'.info := by
  induction pkts with
  | nil =>
      refine ⟨_, rfl, ?_⟩
      rw [handlerTimes, probesOf, List.filter_nil, List.append_nil, ← hopen]
      exact h
  | cons x pkts ih =>
      obtain ⟨hx, hpkts⟩ := List.forall_mem_cons.mp henv
      by_cases hprobe : x.1.data.etherType = rteCpuToBe16 probePktEtherType
      · -- the clock is read here
        obtain ⟨info, hround, h₁⟩ := @Logs.handlerRound cfg l loc
          { info := s, ts := { tvSec := 0, tvNsec := 0 }, isRead := false } x h hopen hthread hx
          hprobe
        obtain ⟨st', hloop, h'⟩ := @Logs.handlerLoop_read cfg _ loc
          { info := info, ts := readClock cfg { tvSec := 0, tvNsec := 0 } x.2, isRead := true }
          pkts h₁ rfl hthread rfl hpkts
        refine ⟨st', ?_, ?_⟩
        · rw [List.foldlM_cons, hround]
          exact hloop
        · rw [handlerTimes, probesOf_cons_probe pkts hprobe]
          simp only [List.map_cons]
          rw [← List.singleton_append, ← List.append_assoc]
          exact h'
      · rw [List.foldlM_cons, handlerRound_other hprobe, handlerTimes,
          probesOf_cons_other pkts hprobe, ← handlerTimes]
        exact ih hpkts

-- ================================================================= the calls

/-- The file takes everything at once, in whatever the call writes. -/
def ApiCall.Full : ApiCall → Prop
  | .traceFlush env => env.Full
  | .traceHandler _ _ pkts => ∀ x ∈ pkts, x.2.env.Full
  | .traceHwTxRecord env env' _ _ => env.Full ∧ env'.Full
  | .traceHwRxRecord pkts => ∀ x ∈ pkts, x.2.env.Full ∧ x.2.env'.Full

def ApiCall.isHandler : ApiCall → Bool
  | .traceHandler _ _ _ => true
  | _ => false

theorem Logs.handler (h : Logs cfg.gettid l s) (hthread : 0 ≤ cfg.gettid) (fopenOk : Bool)
    (loc : UInt8) {pkts : List (Mbuf × HandlerAnswer)} (henv : ∀ x ∈ pkts, x.2.env.Full) :
    ∃ s', traceHandler cfg s fopenOk loc pkts = some s'
      ∧ Logs cfg.gettid (l.step cfg (.traceHandler fopenOk loc pkts)) s' := by
  rw [traceHandler, TraceLog.step]
  by_cases hfailed : l.file = .failed
  · rw [if_pos (h.failed.mp hfailed), if_pos hfailed]
    exact ⟨s, rfl, h⟩
  · rw [if_neg (h.failed.not.mp hfailed), if_neg hfailed]
    cases hfout : s.fout with
    | some fp =>
        have hopen : l.file = .opened := h.opened.mpr (by rw [hfout]; rfl)
        obtain ⟨st, hloop, h'⟩ := h.handlerLoop hopen hthread henv
        rw [TraceLog.openFile_opened hopen, TraceLog.append_opened hopen]
        refine ⟨st.info, ?_, h'⟩
        show (pkts.foldlM (Tracer.handlerRound cfg loc) _).map (·.info) = some st.info
        rw [hloop, Option.map_some]
    | none =>
        have hclosed : l.file ≠ .opened := by
          rw [ne_eq, h.opened, hfout]
          decide
        have hinit := localInit_recorded h.toRecorded hfout fopenOk
        cases fopenOk with
        | true =>
            have h₁ := hinit.logs rfl hthread h.lastIdx h.lastPort
            obtain ⟨st, hloop, h'⟩ := h₁.handlerLoop rfl hthread henv
            rw [TraceLog.openFile_true, TraceLog.append_opened rfl]
            refine ⟨st.info, ?_, h'⟩
            exact congrArg (Option.map (·.info)) hloop
        | false =>
            rw [TraceLog.openFile_false hclosed, TraceLog.append_failed rfl]
            exact ⟨_, rfl, hinit.logsFailed rfl rfl h.lastIdx h.lastPort⟩

theorem Logs.hwTxRecord (h : Logs cfg.gettid l s) (hthread : 0 ≤ cfg.gettid) {env env' : Env}
    (henv : env.Full) (henv' : env'.Full) (reads : ℕ → Option Timespec) (pkt : Option PktFmt) :
    ∃ out, traceHwTxRecord s cfg.gettid env env' reads pkt = some out
      ∧ Logs cfg.gettid (l.step cfg (.traceHwTxRecord env env' reads pkt)) out.info
      ∧ (s.nbRecord = 0 → out.info.nbRecord = 0) := by
  unfold traceHwTxRecord
  rw [TraceLog.step]
  by_cases hfailed : l.file = .failed
  · rw [if_pos (h.failed.mp hfailed), if_pos hfailed]
    exact ⟨_, rfl, h, id⟩
  · rw [if_neg (h.failed.not.mp hfailed), if_neg hfailed]
    rcases hread : readTx reads 0 with ⟨n, time⟩
    cases time with
    | none => exact ⟨_, rfl, h, id⟩
    | some ts =>
        obtain ⟨s₁, hcall, h₁⟩ := h.attempt hthread henv (txTime pkt ts)
        obtain ⟨s', hflush, h', hzero⟩ := h₁.flush henv'
        have hrecord : recordHwTx s cfg.gettid env env' pkt ts = some s' := by
          unfold recordHwTx
          cases pkt with
          | none =>
              simp only
              rw [h.lastIdx, h.lastPort, show recordToCache s cfg.gettid env locHardwareTx 0 0
                timestampTimespec (some ts) = some s₁ from hcall, Option.bind_some, hflush]
          | some fmt =>
              simp only
              rw [show recordToCache s cfg.gettid env locHardwareTx fmt.probeIdx fmt.probeSender
                timestampTimespec (some ts) = some s₁ from hcall, Option.bind_some, hflush]
        refine ⟨{ reads := n, failed := false, info := s' }, ?_, h', fun _ => hzero⟩
        simp only
        rw [hrecord, Option.map_some]

/-- One call: it returns, and does to the log what it should. -/
theorem Logs.exec (h : Logs cfg.gettid l s) (hthread : 0 ≤ cfg.gettid) {call : ApiCall}
    (henv : call.Full) :
    ∃ s', apiExec cfg s call = some s' ∧ Logs cfg.gettid (l.step cfg call) s'
      ∧ (call.isHandler = false → s.nbRecord = 0 → s'.nbRecord = 0) := by
  cases call with
  | traceFlush env =>
      obtain ⟨s', hflush, h', hzero⟩ := h.flush henv
      exact ⟨s', hflush, h', fun _ _ => hzero⟩
  | traceHandler fopenOk loc pkts =>
      obtain ⟨s', hcall, h'⟩ := h.handler hthread fopenOk loc henv
      exact ⟨s', hcall, h', fun hno => absurd hno (by simp [ApiCall.isHandler])⟩
  | traceHwTxRecord env env' reads pkt =>
      obtain ⟨out, hcall, h', hzero⟩ := h.hwTxRecord hthread henv.1 henv.2 reads pkt
      refine ⟨out.info, ?_, h', fun _ => hzero⟩
      rw [apiExec, hcall, Option.map_some]
  | traceHwRxRecord pkts =>
      rw [apiExec, traceHwRxRecord, TraceLog.step]
      by_cases hfailed : l.file = .failed
      · rw [if_pos (h.failed.mp hfailed), if_pos hfailed]
        exact ⟨s, rfl, h, fun _ => id⟩
      · rw [if_neg (h.failed.not.mp hfailed), if_neg hfailed]
        obtain ⟨s', hloop, h', hzero⟩ := h.rxLoop hthread henv
        exact ⟨s', hloop, h', fun _ => hzero⟩

theorem Logs.run {calls : List ApiCall} (h : Logs cfg.gettid l s) (hthread : 0 ≤ cfg.gettid)
    (henv : ∀ call ∈ calls, call.Full) :
    ∃ s', Lts.run (apiExec cfg) s calls = some s'
      ∧ Logs cfg.gettid (calls.foldl (TraceLog.step cfg) l) s'
      ∧ ((∀ call ∈ calls, call.isHandler = false) → s.nbRecord = 0 → s'.nbRecord = 0) := by
  induction calls generalizing l s with
  | nil => exact ⟨s, rfl, h, fun _ => id⟩
  | cons call calls ih =>
      obtain ⟨hcall, hcalls⟩ := List.forall_mem_cons.mp henv
      obtain ⟨s₁, hexec, h₁, hzero₁⟩ := h.exec hthread hcall
      obtain ⟨s', hrun, h', hzero⟩ := ih h₁ hcalls
      refine ⟨s', Lts.run_cons_eq_some.mpr ⟨s₁, hexec, hrun⟩, h', fun hno hz => ?_⟩
      obtain ⟨hno₁, hno⟩ := List.forall_mem_cons.mp hno
      exact hzero hno (hzero₁ hno₁ hz)

/-- Any calls in one thread, in any order, whether and when its file opens: every
call returns, and the records in the file and then in the cache are the entries
of the log, in their order. The file is open exactly when the log's is. Without
`trace_handler` the file alone is the log. -/
theorem api_logs (hthread : 0 ≤ cfg.gettid) {calls : List ApiCall}
    (henv : ∀ call ∈ calls, call.Full) :
    ∃ s, Lts.run (apiExec cfg) LocalInfo.start calls = some s
      ∧ s.nbRecord < perThreadCacheSize
      ∧ List.Forall₂ (Matches cfg.gettid)
          (calls.foldl (TraceLog.step cfg) .start).entries s.records
      ∧ ((calls.foldl (TraceLog.step cfg) .start).file = .opened ↔ s.fout.isSome)
      ∧ ((∀ call ∈ calls, call.isHandler = false) → s.records = s.fout.getD []) := by
  obtain ⟨s, hrun, h, hzero⟩ := (@logs_start cfg.gettid).run hthread henv
  refine ⟨s, hrun, h.nbRecord_lt, h.records, h.opened, fun hno => ?_⟩
  rw [LocalInfo.records, hzero hno rfl, UInt32.toNat_zero, List.range_zero, List.map_nil,
    List.append_nil]

/-- A packet with `probe0`, and what the clocks answer. -/
def probeMbuf (olFlags : UInt64) : Mbuf :=
  { pktLen := 64, dataLen := 64, olFlags := olFlags, data := probe0 }

def clockAnswer : HandlerAnswer :=
  { readTime := some ⟨1, 2⟩, rdtsc := 3, env := .good }

def probeCfg : ApiCfg := { gettid := 7, ptNicTimestamp := true, pktRxIeee1588Tmst := 4 }

/-- One call of each kind; the burst of `trace_hw_rx_record` opens the file. -/
def probeCalls : List ApiCall :=
  [.traceFlush .good,
    .traceHwRxRecord [(probeMbuf 4, { ts := some ⟨5, 6⟩, env := .good, env' := .good })],
    .traceHandler true 2 [(probeMbuf 0, clockAnswer), (probeMbuf 4, clockAnswer)],
    .traceHwTxRecord .good .good (readyAt 0) none]

theorem probeCalls_full : ∀ call ∈ probeCalls, call.Full := by
  have hgood := Env.good_ok.toFull
  simp [probeCalls, ApiCall.Full, hgood, clockAnswer, or_imp, forall_and]

/-- What they make of the log. -/
theorem probeCalls_log :
    probeCalls.foldl (TraceLog.step probeCfg) .start
      = { file := .opened
          entries := [⟨1, 5, 1, 1, ⟨5, 6⟩⟩, ⟨2, 5, 1, 1, ⟨1, 2⟩⟩, ⟨2, 5, 1, 1, ⟨1, 2⟩⟩,
            ⟨0, 0, 0, 1, ⟨1, 2⟩⟩] } := by
  have hread : readTx (readyAt 0) 0 = (1, some ⟨1, 2⟩) :=
    readTx_record rfl (by decide)
  simp only [probeCalls, List.foldl_cons, List.foldl_nil, TraceLog.step, hread]
  rfl

theorem api_logs_probeCalls :
    ∃ s, Lts.run (apiExec probeCfg) LocalInfo.start probeCalls = some s
      ∧ s.nbRecord < perThreadCacheSize ∧ s.fout.isSome
      ∧ s.records.map (·.timestamp.word0) = [5, 1, 1, 1] := by
  obtain ⟨s, hrun, hlt, hrecords, hopen, -⟩ :=
    @api_logs probeCfg (by decide) probeCalls probeCalls_full
  rw [probeCalls_log] at hrecords hopen
  refine ⟨s, hrun, hlt, hopen.mp rfl, ?_⟩
  obtain ⟨r₁, rs₁, h₁, hrecords, hrs₁⟩ := List.forall₂_cons_left_iff.mp hrecords
  obtain ⟨r₂, rs₂, h₂, hrecords, hrs₂⟩ := List.forall₂_cons_left_iff.mp hrecords
  obtain ⟨r₃, rs₃, h₃, hrecords, hrs₃⟩ := List.forall₂_cons_left_iff.mp hrecords
  obtain ⟨r₄, rs₄, h₄, hrecords, hrs₄⟩ := List.forall₂_cons_left_iff.mp hrecords
  obtain rfl := List.forall₂_nil_left_iff.mp hrecords
  rw [hrs₁, hrs₂, hrs₃, hrs₄]
  simp [(h₁.timespec rfl).1, (h₂.timespec rfl).1, (h₃.timespec rfl).1, (h₄.timespec rfl).1]

end PktSender.Tracer
