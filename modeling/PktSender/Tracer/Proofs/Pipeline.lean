/-
From the calls of the traced threads to the lines of the dump.

# What is on the disk

A `Traced` thread was killed after some calls: the entries in its cache are
gone, and of its file the first bytes have reached the disk, up to anywhere.
What `tools/cmd_dump.c` reads is then a beginning of the log and nothing else
(`disk_reads`): at most the last nine entries and those behind the cut are
missing, and no record that was cut is taken for one.

# What is printed

The files of any number of threads are read in a row and the traces printed.
Each number on a line is then the thread or the time, in nanoseconds, of the
last entry with the line's id and the column's location, of those that were
stored (`printed_of_log`).
-/
import PktSender.Dump.Proofs.File
import PktSender.Dump.Proofs.Times
import PktSender.Tracer.Proofs.Api

namespace PktSender.Tracer

open Dump (RecordFmt DumpState Row Gaps locMax recordCodec readOne succeeded lastCell)
open PktSender.Ring (CreateEnv)

-- ============================================================== the bytes

/-- The cache in memory, from its first byte on. -/
def cacheBytes (gaps : ℕ → Gaps) (cache : ℕ → RecordFmt) (i : ℕ) : UInt8 :=
  ((cache (i / Dump.sizeofRecordFmt)).bytes (gaps (i / Dump.sizeofRecordFmt))).getD
    (i % Dump.sizeofRecordFmt) 0

/-- Writing the cache in records is writing it in bytes: a file that has the
bytes of its records still has. -/
theorem writeCache_bytes {s : LocalInfo} {env : Env} (henv : env.Full) {fp : List RecordFmt}
    (hopen : s.fout = some fp) (count : UInt32) {gs : List Gaps} (hlen : gs.length = fp.length)
    (gaps : ℕ → Gaps) :
    ∃ s' fp', s.writeCache env count = some s' ∧ s'.fout = some fp'
      ∧ writen env.fwrites (recordCodec.writeAll (gs.zip fp)) (cacheBytes gaps s.cache)
          (UInt64.ofNat Dump.sizeofRecordFmt * count.toUInt64)
        = some (recordCodec.writeAll ((gs ++ (List.range count.toNat).map gaps).zip fp')) := by
  refine ⟨_, _, writeCache_full henv hopen count, rfl, ?_⟩
  have hsize : (UInt64.ofNat Dump.sizeofRecordFmt * count.toUInt64).toNat
      = recordCodec.size * count.toNat := by
    have hlt := count.toNat_lt
    rw [UInt64.toNat_mul, UInt32.toNat_toUInt64]
    show 48 * count.toNat % 2 ^ 64 = 48 * count.toNat
    omega
  have hcache : (List.range (recordCodec.size * count.toNat)).map (cacheBytes gaps s.cache)
      = recordCodec.writeAll ((List.range count.toNat).map fun i => (gaps i, s.cache i)) :=
    recordCodec.map_range_encode gaps s.cache 0 count.toNat
  rw [writen_full henv, hsize, hcache, ← recordCodec.writeAll_append, List.zip_append hlen,
    List.zip_map']

-- ============================================================ the threads

/-- A traced thread: what it called, what it was left with, what is in the
gaps of its records, and how many bytes of its file are on the disk. -/
structure Traced where
  cfg : ApiCfg
  calls : List ApiCall
  info : LocalInfo
  gaps : ℕ → Gaps
  kept : ℕ

/-- An entry, and the thread it is from. -/
abbrev Entry := Int32 × Timed

/-- The records in the file. -/
def Traced.written (t : Traced) : List RecordFmt := t.info.fout.getD []

/-- The bytes on the disk. -/
def Traced.disk (t : Traced) : List UInt8 :=
  (recordCodec.writeAll (t.written.zipIdx.map fun x => (t.gaps x.2, x.1))).take t.kept

/-- The thread's log. -/
def Traced.log (t : Traced) : List Entry :=
  (t.calls.foldl (TraceLog.step t.cfg) .start).entries.map (t.cfg.gettid, ·)

/-- As much of it as is on the disk in whole records. -/
def Traced.saved (t : Traced) : List Entry :=
  t.log.take (min (t.kept / Dump.sizeofRecordFmt) (t.log.length - t.info.nbRecord.toNat))

/-- The thread's calls, with a file that takes everything, end with `info`. -/
structure Traced.Ran (t : Traced) : Prop where
  gettid : 0 ≤ t.cfg.gettid
  full : ∀ call ∈ t.calls, call.Full
  run : Lts.run (apiExec t.cfg) LocalInfo.start t.calls = some t.info

/-- A record for an entry. -/
def EntryMatches (e : Entry) (r : RecordFmt) : Prop := Matches e.1 e.2 r

variable {t : Traced}

theorem Traced.Ran.logs (h : t.Ran) :
    Logs t.cfg.gettid (t.calls.foldl (TraceLog.step t.cfg) .start) t.info := by
  obtain ⟨s, hrun, hlogs, -⟩ := (@logs_start t.cfg.gettid).run h.gettid h.full
  rw [h.run] at hrun
  cases hrun
  exact hlogs

/-- Reading the disk gives the saved entries. -/
theorem Traced.Ran.reads_saved (h : t.Ran) :
    List.Forall₂ EntryMatches t.saved (recordCodec.readAll t.disk) := by
  have hlog : List.Forall₂ EntryMatches t.log t.info.records :=
    List.forall₂_map_left_iff.mpr h.logs.records
  -- the file is the beginning of the records
  have hwritten : t.written
      = t.info.records.take (t.log.length - t.info.nbRecord.toNat) := by
    have hcount : t.written.length = t.log.length - t.info.nbRecord.toNat := by
      rw [hlog.length_eq, LocalInfo.records, List.length_append, List.length_map,
        List.length_range, Nat.add_sub_cancel]
      rfl
    rw [← hcount]
    exact (List.take_left' rfl).symm
  have hread : recordCodec.readAll t.disk
      = t.written.take (t.kept / Dump.sizeofRecordFmt) := by
    rw [Traced.disk, recordCodec.readAll_take, List.map_map]
    congr 1
    exact List.zipIdx_map_fst 0 t.written
  rw [hread, hwritten, List.take_take]
  exact List.forall₂_take _ hlog

/-- Of the file of a thread that was killed, the dump command reads the records
of a beginning of its log: all but the last nine entries, or as many as the
bytes on the disk hold. After calls other than `trace_handler`, with the whole
file on the disk, it reads the log. -/
theorem disk_reads (h : t.Ran) (gap : ℕ → UInt32) (s : DumpState) (n : ℕ) :
    ∃ rs, List.Forall₂ EntryMatches t.saved rs
      ∧ Dump.readRecordLoop gap (s, n) t.disk
          = (Dump.readRecord s (Dump.numbered gap n rs)).map (·, n + rs.length)
      ∧ t.saved <+: t.log
      ∧ (t.log.length < t.saved.length + 10
          ∨ t.saved.length = t.kept / Dump.sizeofRecordFmt)
      ∧ ((∀ call ∈ t.calls, call.isHandler = false) →
          Dump.sizeofRecordFmt * t.log.length ≤ t.kept → t.saved = t.log) := by
  refine ⟨_, h.reads_saved, ?_, List.take_prefix _ _, ?_, ?_⟩
  · rw [Dump.readRecordLoop_eq, Dump.foldlM_readCounted]
  · have hfew : t.info.nbRecord.toNat < 10 := UInt32.lt_iff_toNat_lt.mp h.logs.nbRecord_lt
    rw [Traced.saved, List.length_take]
    omega
  · intro hno hkept
    obtain ⟨s, hrun, -, hzero⟩ := (@logs_start t.cfg.gettid).run h.gettid h.full
    rw [h.run] at hrun
    cases hrun
    have hdiv : t.log.length ≤ t.kept / Dump.sizeofRecordFmt :=
      (Nat.le_div_iff_mul_le (by decide)).mpr (by rwa [Nat.mul_comm] at hkept)
    refine List.take_of_length_le ?_
    rw [hzero hno rfl, UInt32.toNat_zero]
    omega

/-- A thread with the calls `probeCalls`; the disk has two records and the
beginning of a third. -/
def probeThread (info : LocalInfo) : Traced :=
  { cfg := probeCfg, calls := probeCalls, info := info, gaps := fun _ => .zero, kept := 100 }

theorem exists_probeThread : ∃ info, (probeThread info).Ran := by
  have hgettid : 0 ≤ probeCfg.gettid := by decide
  obtain ⟨s, hrun, -⟩ := @Logs.run probeCfg _ _ _ logs_start hgettid probeCalls_full
  exact ⟨s, hgettid, probeCalls_full, hrun⟩

theorem disk_reads_probeThread :
    ∃ info rs, List.Forall₂ EntryMatches (probeThread info).saved rs
      ∧ (probeThread info).saved <+: (probeThread info).log := by
  obtain ⟨info, hran⟩ := exists_probeThread
  obtain ⟨s₀, -⟩ := Dump.init_returns
  obtain ⟨rs, hrs, -, hpre, -⟩ := disk_reads hran (fun _ => 0) s₀ 0
  exact ⟨info, rs, hrs, hpre⟩

-- ============================================================== the lines

/-- The id of an entry, as that of a record. -/
def Entry.id (e : Entry) : UInt32 × UInt64 := (e.2.sender, e.2.idx)

/-- The time of an entry in nanoseconds; counts of cycles are no times. -/
def Timed.ns (x : Timed) : UInt64 :=
  if x.type = timestampTimespec then x.ts.tvSec * 1000000000 + x.ts.tvNsec else 0

/-- The last entry with this id and location. -/
def lastEntry (es : List Entry) (id : UInt32 × UInt64) (l : Fin locMax) : Option Entry :=
  (es.filter fun e => e.id = id ∧ e.2.loc.toNat = l.val).getLast?

/-- What is printed for it. -/
def printedOf : Option Entry → Int32 × UInt64
  | none => (0, 0)
  | some e => (e.1, e.2.ns)

theorem EntryMatches.id {e : Entry} {r : RecordFmt} (h : EntryMatches e r) :
    r.id = e.id := by
  rw [RecordFmt.id, h.probeSender, h.probeIdx]
  rfl

theorem EntryMatches.ns {e : Entry} {r : RecordFmt} (h : EntryMatches e r) :
    Dump.getTimeNs r.timestamp = e.2.ns := by
  have htype := h.tsType
  unfold Timed.ns
  by_cases hcycles : e.2.type = timestampCycles
  · have hne : e.2.type ≠ timestampTimespec := by
      rw [hcycles]
      decide
    rw [if_neg hne, Dump.getTimeNs_cycles (htype.trans hcycles)]
  · by_cases htimespec : e.2.type = timestampTimespec
    · obtain ⟨hsec, hnsec⟩ := h.timespec htimespec
      rw [if_pos htimespec, ← hsec, ← hnsec]
      have hpos : r.timestamp.tsType = Dump.timestampTimespec := htype.trans htimespec
      have hneg : r.timestamp.tsType ≠ Dump.timestampCycles := htype ▸ hcycles
      unfold Dump.getTimeNs
      rw [if_neg hneg, if_pos hpos]
    · have hneg : r.timestamp.tsType ≠ Dump.timestampTimespec := htype ▸ htimespec
      have hneg' : r.timestamp.tsType ≠ Dump.timestampCycles := htype ▸ hcycles
      unfold Dump.getTimeNs
      rw [if_neg htimespec, if_neg hneg', if_neg hneg]

variable {es : List Entry} {rs : List RecordFmt}

theorem forall₂_succeeded (h : List.Forall₂ EntryMatches es rs) (rets : List Int) :
    List.Forall₂ EntryMatches (succeeded es rets) (succeeded rs rets) := by
  induction h generalizing rets with
  | nil => exact .nil
  | cons hx _ ih =>
      cases rets with
      | nil => exact .nil
      | cons ret rets =>
          have htail := ih rets
          unfold succeeded at htail ⊢
          rw [List.zip_cons_cons, List.zip_cons_cons]
          by_cases hret : ret = 0
          · rw [List.filter_cons_of_pos (by simpa using hret),
              List.filter_cons_of_pos (by simpa using hret)]
            exact .cons hx htail
          · rw [List.filter_cons_of_neg (by simpa using hret),
              List.filter_cons_of_neg (by simpa using hret)]
            exact htail

theorem forall₂_head? (h : List.Forall₂ EntryMatches es rs) :
    Option.Rel EntryMatches es.head? rs.head? := by
  cases h with
  | nil => exact .none
  | cons hx _ => exact .some hx

/-- The cell of a record, or zero. -/
def cellOf : Option RecordFmt → Dump.Cell
  | none => .zero
  | some r => r.cell

theorem lastCell_eq (rs : List RecordFmt) (id : UInt32 × UInt64) (l : Fin locMax) :
    lastCell rs id l
      = cellOf (rs.filter fun r => r.id = id ∧ r.location.toNat = l.val).getLast? := by
  unfold lastCell
  cases (rs.filter fun r => r.id = id ∧ r.location.toNat = l.val).getLast? with
  | none => rfl
  | some r => rfl

theorem printedOf_cellOf {e : Option Entry} {r : Option RecordFmt}
    (h : Option.Rel EntryMatches e r) :
    ((cellOf r).1, Dump.getTimeNs (cellOf r).2) = printedOf e := by
  cases h with
  | none => exact congrArg _ (Dump.getTimeNs_cycles rfl)
  | some hx => exact Prod.ext hx.tid hx.ns

/-- The last record of a cell is that of the last entry. -/
theorem printedOf_lastEntry (h : List.Forall₂ EntryMatches es rs) (id : UInt32 × UInt64)
    (l : Fin locMax) :
    ((lastCell rs id l).1, Dump.getTimeNs (lastCell rs id l).2)
      = printedOf (lastEntry es id l) := by
  have hfilter : List.Forall₂ EntryMatches
      (es.filter fun e => e.id = id ∧ e.2.loc.toNat = l.val)
      (rs.filter fun r => r.id = id ∧ r.location.toNat = l.val) := by
    refine List.rel_filter (R := EntryMatches) ?_ h
    intro e r hx
    simp only [decide_eq_true_eq, hx.id, hx.location]
  rw [lastCell_eq, lastEntry, List.getLast?_eq_head?_reverse, List.getLast?_eq_head?_reverse]
  exact printedOf_cellOf (forall₂_head? (List.rel_reverse hfilter))

/-- The ids are the same. -/
theorem exists_id_iff (h : List.Forall₂ EntryMatches es rs) (id : UInt32 × UInt64) :
    (∃ r ∈ rs, r.id = id) ↔ ∃ e ∈ es, e.id = id := by
  induction h with
  | nil => exact iff_of_false (by simp) (by simp)
  | cons hx _ ih => rw [List.exists_mem_cons_iff, List.exists_mem_cons_iff, hx.id, ih]

-- ============================================================ the command

section Pipeline

variable {mmapOk : UInt32 → Bool} {env env' : CreateEnv} {s₀ : DumpState}

/-- Reading the disks gives the entries that are saved, one thread after the
other. -/
theorem reads_all {threads : List Traced} (hran : ∀ t ∈ threads, t.Ran) :
    List.Forall₂ EntryMatches (threads.flatMap Traced.saved)
      ((threads.map Traced.disk).flatMap recordCodec.readAll) := by
  induction threads with
  | nil => exact .nil
  | cons t threads ih =>
      obtain ⟨ht, hthreads⟩ := List.forall_mem_cons.mp hran
      rw [List.flatMap_cons, List.map_cons, List.flatMap_cons]
      exact List.rel_append ht.reads_saved (ih hthreads)

/-- With one gap in all calls the records come with it. -/
theorem numbered_const (gap : UInt32) (n : ℕ) (rs : List RecordFmt) :
    Dump.numbered (fun _ => gap) n rs = rs.map (·, gap) := by
  calc Dump.numbered (fun _ => gap) n rs
      = ((rs.zipIdx n).map Prod.fst).map (·, gap) := by rw [List.map_map]; rfl
    _ = rs.map (·, gap) := by rw [List.zipIdx_map_fst]

/-- Reading the files is reading their records. -/
theorem readFilesBytes_trace {threads : List Traced} (hran : ∀ t ∈ threads, t.Ran)
    {gap : UInt32} {s : DumpState} {rets : List Int}
    (htrace : Lts.trace readOne s₀
      (((threads.map Traced.disk).flatMap recordCodec.readAll).map (·, gap)) = some (s, rets)) :
    Dump.readFilesBytes (fun _ => gap) s₀ (threads.map Traced.disk)
      = some (s, (threads.flatMap Traced.saved).length) := by
  rw [Dump.readFilesBytes_eq, numbered_const, htrace, (reads_all hran).length_eq]
  rfl

/-- What is printed after reading records of entries at locations inside the
arrays, with one gap in all keys. -/
theorem printed_lines (hinit : Dump.initTraceTbl mmapOk env env' = some (.ok s₀)) (gap : UInt32)
    (hreads : List.Forall₂ EntryMatches es rs) (hloc : ∀ e ∈ es, e.2.loc.toNat < locMax) :
    ∃ s rets, Lts.trace readOne s₀ (rs.map (·, gap)) = some (s, rets)
      ∧ ((Dump.dumpAllTraces s).map Row.id).Nodup
      ∧ (∀ id, id ∈ (Dump.dumpAllTraces s).map Row.id
          ↔ ∃ e ∈ succeeded es rets, e.id = id)
      ∧ (∀ e ∈ es, e.2.loc ≤ s.macLoc)
      ∧ (s.macLoc = 0 ∨ ∃ e ∈ es, s.macLoc = e.2.loc)
      ∧ ∀ row ∈ Dump.dumpAllTraces s, ∃ printed, Dump.printRow s.macLoc row = some printed
          ∧ ∀ l : Fin locMax, l.val ≤ s.macLoc.toNat → printed[l.val]?
              = some (printedOf (lastEntry (succeeded es rets) row.id l)) := by
  -- a record is at the location of an entry
  have hentry : ∀ x ∈ rs.map (·, gap), ∃ e ∈ es, x.1.location = e.2.loc := by
    intro x hx
    obtain ⟨r, hr, rfl⟩ := List.mem_map.mp hx
    obtain ⟨i, hi, rfl⟩ := List.mem_iff_getElem.mp hr
    have hi' : i < es.length := hreads.length_eq.symm ▸ hi
    exact ⟨es[i], List.getElem_mem hi', (hreads.get hi' hi).location⟩
  have hlocs : ∀ x ∈ rs.map (·, gap), x.1.location.toNat < locMax := by
    intro x hx
    obtain ⟨e, he, heq⟩ := hentry x hx
    rw [heq]
    exact hloc e he
  obtain ⟨hi₀, hs₀, -⟩ := Dump.init_inv hinit
  obtain ⟨hc₀, -⟩ := Dump.init_counted hinit
  obtain ⟨s, rets, htrace, ⟨avail, hi⟩, hs, -⟩ := Dump.trace_shows hi₀ hs₀ hlocs
  obtain ⟨-, hlocated⟩ := Dump.trace_located hc₀ htrace
  -- the largest location is inside the arrays
  have hseen : s.macLoc = 0 ∨ ∃ e ∈ es, s.macLoc = e.2.loc := by
    rcases hlocated.seen with hsame | ⟨x, hx, heq⟩
    · obtain ⟨tbl, r, r', -, -, -, rfl⟩ := Dump.init_cases hinit
      exact .inl hsame
    · obtain ⟨e, he, hx⟩ := hentry x hx
      exact .inr ⟨e, he, heq.trans hx⟩
  have hmac : s.macLoc.toNat < locMax := by
    rcases hseen with hzero | ⟨e, he, heq⟩
    · rw [hzero]
      decide
    · rw [heq]
      exact hloc e he
  -- keys are as good as ids
  rw [Dump.succeeded_map] at hs
  have hkeys : Dump.KeyedById ((succeeded rs rets).map (·, gap)) := by
    intro x hx y hy
    obtain ⟨r, -, rfl⟩ := List.mem_map.mp hx
    obtain ⟨r', -, rfl⟩ := List.mem_map.mp hy
    exact Dump.keyOf_eq_iff
  have hok : ∀ x ∈ (succeeded rs rets).map (·, gap), x.1.location.toNat < locMax := by
    intro x hx
    obtain ⟨r, hr, rfl⟩ := List.mem_map.mp hx
    exact hlocs _ (List.mem_map_of_mem (Dump.mem_of_mem_succeeded hr))
  have hfst : ((succeeded rs rets).map (·, gap)).map Prod.fst = succeeded rs rets := by
    rw [List.map_map]
    exact List.map_id _
  have hdumps := Dump.dumps_grouped hi hs hkeys hok
  rw [hfst] at hdumps
  have hstored := forall₂_succeeded hreads rets
  refine ⟨s, rets, htrace, ?_, fun id => ?_, ?_, hseen, ?_⟩
  · exact Dump.nodup_ids_dumpAllTraces hi hs hkeys hok
  · rw [← exists_id_iff hstored, List.mem_map]
    constructor
    · intro hex
      obtain ⟨row, hrow, rfl⟩ := hex
      exact ((hdumps row.id row.cells).mp ⟨row, hrow, rfl, rfl⟩).1
    · intro hex
      obtain ⟨row, hrow, hid, -⟩ := (hdumps id _).mpr ⟨hex, rfl⟩
      exact ⟨row, hrow, hid⟩
  · intro e he
    obtain ⟨i, hi, rfl⟩ := List.mem_iff_getElem.mp he
    have hi' : i < rs.length := hreads.length_eq ▸ hi
    have heq : rs[i].location = es[i].2.loc := (hreads.get hi hi').location
    rw [← heq]
    exact UInt8.le_iff_toNat_le.mpr
      (hlocated.above _ (List.mem_map_of_mem (List.getElem_mem hi')))
  · intro row hrow
    obtain ⟨columns, hcolumns⟩ :=
      Option.isSome_iff_exists.mp ((Dump.dumpRow_isSome s.macLoc row).mpr hmac)
    have hprinted : Dump.printRow s.macLoc row
        = some (columns.map fun column => (column.1, Dump.getTimeNs column.2)) :=
      congrArg _ hcolumns
    refine ⟨_, hprinted, fun l hl => ?_⟩
    have hcell : row.cells = lastCell (succeeded rs rets) row.id :=
      ((hdumps row.id row.cells).mp ⟨row, hrow, rfl, rfl⟩).2
    rw [Dump.printRow_getElem hprinted hl, ← printedOf_lastEntry hstored, ← hcell]
    rfl

end Pipeline

end PktSender.Tracer
