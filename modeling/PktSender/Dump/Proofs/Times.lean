/-
The times that are printed.

A time of day is printed in nanoseconds, and a later one is a larger number
(`getTimeNs_timespec`). A count of cycles is multiplied by `cpu_hz`, which
nothing sets, so every count is printed as 0 (`getTimeNs_cycles`). Of two times
in one line, the later is hence the larger number exactly when the type is
`TIMESTAMP_TIMESPEC`.

What is in a trace came from a record, or was never written and is zero
(`TimesFrom`): in a run that reads no counts of cycles every line is in order.
-/
import PktSender.Dump.Proofs.Bounds

namespace PktSender.Dump

open PktSender.Ring PktSender.Cuckoo

variable {s s' s₀ : DumpState} {ts ts' : RecordTs} {P : RecordTs → Prop}

-- ============================================================== timestamps

/-- The cycles or the nanoseconds of a timestamp. -/
def RecordTs.units (ts : RecordTs) : Nat :=
  if ts.tsType = timestampCycles then ts.word0.toNat
  else ts.word0.toNat * 1000000000 + ts.word1.toNat

/-- Cycles, or seconds with nanoseconds below one second. -/
def RecordTs.Regular (ts : RecordTs) : Prop :=
  ts.tsType = timestampCycles
    ∨ ts.tsType = timestampTimespec ∧ ts.word0.toNat ≤ 2 ^ 32 ∧ ts.word1.toNat < 1000000000

/-- The second timestamp is at least 1000 units later. -/
structure Later (ts ts' : RecordTs) : Prop where
  tsType : ts.tsType = ts'.tsType
  regular : ts.Regular
  regular' : ts'.Regular
  apart : ts.units + 1000 ≤ ts'.units
  below : ts'.units < 2 ^ 52

theorem getTimeNs_cycles (h : ts.tsType = timestampCycles) : getTimeNs ts = 0 := by
  unfold getTimeNs cpuHz
  rw [if_pos h, mul_zero]
  rfl

theorem getTimeNs_timespec (h : ts.tsType = timestampTimespec) (hlt : ts.units < 2 ^ 64) :
    (getTimeNs ts).toNat = ts.units := by
  have hne : ts.tsType ≠ timestampCycles := by
    rw [h]
    decide
  unfold RecordTs.units at hlt ⊢
  unfold getTimeNs
  rw [if_neg hne] at hlt ⊢
  rw [if_neg hne, if_pos h, UInt64.toNat_add, UInt64.toNat_mul,
    show (1000000000 : UInt64).toNat = 1000000000 from rfl, Nat.mod_add_mod]
  exact Nat.mod_eq_of_lt hlt

/-- The law for two timestamps. -/
theorem Later.lt_iff (h : Later ts ts') :
    getTimeNs ts < getTimeNs ts' ↔ ts'.tsType = timestampTimespec := by
  have hapart := h.apart
  have hbelow := h.below
  rcases h.regular' with hcycles | ⟨htimespec, -, -⟩
  · rw [getTimeNs_cycles hcycles, getTimeNs_cycles (h.tsType.trans hcycles), hcycles]
    decide
  · have hearlier := getTimeNs_timespec (h.tsType.trans htimespec) (by omega)
    have hlater := getTimeNs_timespec htimespec (by omega)
    refine iff_of_true ?_ htimespec
    rw [UInt64.lt_iff_toNat_lt, hearlier, hlater]
    omega

-- ================================================================= the line

/-- An element of a map of a partial function is the value of the function. -/
theorem getElem_of_mapM {α β : Type} {f : α → Option β} {l : List α} {l' : List β}
    (h : l.mapM f = some l') (i : Nat) : l'[i]? = (l[i]?).bind f := by
  induction l generalizing l' i with
  | nil =>
      cases h
      rfl
  | cons a l ih =>
      rw [List.mapM_cons] at h
      obtain ⟨b, hb, h⟩ := Option.bind_eq_some_iff.mp h
      obtain ⟨bs, hbs, h⟩ := Option.bind_eq_some_iff.mp h
      cases h
      cases i with
      | zero => exact hb.symm
      | succ i => exact ih hbs i

theorem length_of_mapM {α β : Type} {f : α → Option β} {l : List α} {l' : List β}
    (h : l.mapM f = some l') : l'.length = l.length := by
  induction l generalizing l' with
  | nil =>
      cases h
      rfl
  | cons a l ih =>
      rw [List.mapM_cons] at h
      obtain ⟨b, -, h⟩ := Option.bind_eq_some_iff.mp h
      obtain ⟨bs, hbs, h⟩ := Option.bind_eq_some_iff.mp h
      cases h
      exact congrArg (· + 1) (ih hbs)

theorem length_printRow {macLoc : UInt8} {row : Row} {printed : List (Int32 × UInt64)}
    (hprinted : printRow macLoc row = some printed) : printed.length = macLoc.toNat + 1 := by
  obtain ⟨columns, hcolumns, rfl⟩ := Option.map_eq_some_iff.mp hprinted
  rw [List.length_map, length_of_mapM hcolumns, List.length_range]

/-- A line has a column for each location up to the largest. -/
theorem printRow_getElem {macLoc : UInt8} {row : Row} {printed : List (Int32 × UInt64)}
    (hprinted : printRow macLoc row = some printed) {l : Fin locMax} (hl : l.val ≤ macLoc.toNat) :
    printed[l.val]? = some (row.tracedata.tids l, getTimeNs (row.tracedata.timestamp l)) := by
  obtain ⟨columns, hcolumns, rfl⟩ := Option.map_eq_some_iff.mp hprinted
  rw [List.getElem?_map, getElem_of_mapM hcolumns, List.getElem?_range (Nat.lt_succ_of_le hl),
    Option.bind_some, TraceData.column, dif_pos l.isLt]
  rfl

/-- The times of two locations on a line are in order. -/
def InOrder (printed : List (Int32 × UInt64)) (l l' : Fin locMax) : Prop :=
  ∃ column column', printed[l.val]? = some column ∧ printed[l'.val]? = some column'
    ∧ column.2 < column'.2

theorem inOrder_iff {macLoc : UInt8} {row : Row} {printed : List (Int32 × UInt64)}
    (hprinted : printRow macLoc row = some printed) {l l' : Fin locMax}
    (hl : l.val ≤ macLoc.toNat) (hl' : l'.val ≤ macLoc.toNat) :
    InOrder printed l l'
      ↔ getTimeNs (row.tracedata.timestamp l) < getTimeNs (row.tracedata.timestamp l') := by
  have hcolumn := printRow_getElem hprinted hl
  have hcolumn' := printRow_getElem hprinted hl'
  constructor
  · intro h
    obtain ⟨column, column', heq, heq', hlt⟩ := h
    rw [hcolumn] at heq
    rw [hcolumn'] at heq'
    cases heq
    cases heq'
    exact hlt
  · intro hlt
    exact ⟨_, _, hcolumn, hcolumn', hlt⟩

-- ================================================================= the runs

/-- Every timestamp of a trace is zero or meets a condition. -/
def TimesFrom (P : RecordTs → Prop) (t : TraceData) : Prop :=
  ∀ l, t.timestamp l = .zero ∨ P (t.timestamp l)

theorem TimesFrom.write {t t' : TraceData} {record : RecordFmt} (h : TimesFrom P t)
    (hrecord : P record.timestamp) (hwrite : t.write record = some t') : TimesFrom P t' := by
  rw [t.write_eq (TraceData.location_of_write hwrite)] at hwrite
  cases hwrite
  intro l
  by_cases hl : l = record.loc
  · right
    rw [hl]
    show P (Function.update t.timestamp record.loc record.timestamp record.loc)
    rw [Function.update_self]
    exact hrecord
  · show Function.update t.timestamp record.loc record.timestamp l = .zero
      ∨ P (Function.update t.timestamp record.loc record.timestamp l)
    rw [Function.update_of_ne hl]
    exact h l

/-- A write to one element of the array. -/
theorem timesFrom_setTrace {t : TraceData} {idx : UInt32}
    (h : ∀ i, TimesFrom P (s.traceData i)) (ht : TimesFrom P t) (i : UInt32) :
    TimesFrom P ((s.setTrace idx t).traceData i) := by
  show TimesFrom P (Function.update s.traceData idx t i)
  by_cases hi : i = idx
  · rw [hi, Function.update_self]
    exact ht
  · rw [Function.update_of_ne hi]
    exact h i

/-- What a call leaves in the traces is what was there, or is the record's. -/
theorem addRecord_times {record : RecordFmt} {gap : UInt32} {ret : Int}
    (h : ∀ i, TimesFrom P (s.traceData i)) (hrecord : P record.timestamp)
    (hadd : addRecord s record gap = some (s', ret)) (i : UInt32) :
    TimesFrom P (s'.traceData i) := by
  unfold addRecord at hadd
  simp only at hadd
  split at hadd
  next =>
    split at hadd
    next =>
      cases hadd
      exact h i
    next =>
      split at hadd
      next =>
        obtain ⟨t, ht, hadd⟩ := Option.bind_eq_some_iff.mp hadd
        obtain ⟨r, -, hs'⟩ := Option.map_eq_some_iff.mp hadd
        cases hs'
        refine timesFrom_setTrace (s := { s with traceDataRing := _ }) h ?_ i
        exact TimesFrom.write (fun _ => .inl rfl) hrecord ht
      next => cases hadd
  next =>
    split at hadd
    next idx _ =>
      obtain ⟨t, ht, hs'⟩ := Option.map_eq_some_iff.mp hadd
      cases hs'
      exact timesFrom_setTrace h ((h idx).write hrecord ht) i
    next => cases hadd

theorem trace_times {xs : List (RecordFmt × UInt32)} {rets : List Int}
    (h : ∀ i, TimesFrom P (s₀.traceData i)) (hxs : ∀ x ∈ xs, P x.1.timestamp)
    (htrace : Lts.trace readOne s₀ xs = some (s, rets)) (i : UInt32) :
    TimesFrom P (s.traceData i) := by
  induction xs generalizing s₀ rets with
  | nil =>
      cases htrace
      exact h i
  | cons x xs ih =>
      obtain ⟨s₁, ret, rets', hread, hrest, -⟩ := Lts.trace_cons_eq_some.mp htrace
      obtain ⟨hx, hxs⟩ := List.forall_mem_cons.mp hxs
      exact ih (addRecord_times (s := { s₀ with
        macLoc := if x.1.location > s₀.macLoc then x.1.location else s₀.macLoc })
        h hx hread) hxs hrest

section Init

variable {mmapOk : UInt32 → Bool} {env env' : CreateEnv}
  {files : List (List (RecordFmt × UInt32))}

/-- Where the dump keeps the order of times. In every line of every dump, of two
times of which one is at least 1000 units later than the other, it is the larger
number exactly when they are times of day; so after reading records with no
counts of cycles, always. -/
theorem dump_inOrder_iff (hinit : initTraceTbl mmapOk env env' = some (.ok s₀))
    (hread : readFiles s₀ files = some s) :
    (∀ row ∈ dumpAllTraces s, ∀ printed, printRow s.macLoc row = some printed →
      ∀ l l' : Fin locMax, l.val ≤ s.macLoc.toNat → l'.val ≤ s.macLoc.toNat →
        Later (row.tracedata.timestamp l) (row.tracedata.timestamp l') →
        (InOrder printed l l'
          ↔ (row.tracedata.timestamp l').tsType = timestampTimespec))
    ∧ ((∀ x ∈ files.flatten, x.1.timestamp.tsType = timestampTimespec) →
      ∀ row ∈ dumpAllTraces s, ∀ printed, printRow s.macLoc row = some printed →
        ∀ l l' : Fin locMax, l.val ≤ s.macLoc.toNat → l'.val ≤ s.macLoc.toNat →
          Later (row.tracedata.timestamp l) (row.tracedata.timestamp l') →
          InOrder printed l l') := by
  have hpair : ∀ row ∈ dumpAllTraces s, ∀ printed, printRow s.macLoc row = some printed →
      ∀ l l' : Fin locMax, l.val ≤ s.macLoc.toNat → l'.val ≤ s.macLoc.toNat →
        Later (row.tracedata.timestamp l) (row.tracedata.timestamp l') →
        (InOrder printed l l'
          ↔ (row.tracedata.timestamp l').tsType = timestampTimespec) :=
    fun row _ printed hprinted l l' hl hl' hlater =>
      (inOrder_iff hprinted hl hl').trans hlater.lt_iff
  refine ⟨hpair, fun hfiles row hrow printed hprinted l l' hl hl' hlater => ?_⟩
  rw [hpair row hrow printed hprinted l l' hl hl' hlater]
  rw [readFiles_eq] at hread
  obtain ⟨⟨t, rets⟩, htrace, rfl⟩ := Option.map_eq_some_iff.mp hread
  obtain ⟨hc₀, -⟩ := init_counted hinit
  obtain ⟨⟨avail, hc⟩, -⟩ := trace_located hc₀ htrace
  have hzero : ∀ i, TimesFrom (fun ts => ts.tsType = timestampTimespec) (s₀.traceData i) := by
    obtain ⟨tbl, r, r', -, -, -, rfl⟩ := init_cases hinit
    exact fun _ _ => .inl rfl
  obtain ⟨k, i, -, rfl⟩ := (mem_dumpAllTraces hc.inv).mp hrow
  rcases trace_times hzero hfiles htrace i l' with hnever | htimespec
  · -- what was never written is not later than anything
    have hapart := hlater.apart
    have hunits : RecordTs.units .zero = 0 := rfl
    change (t.traceData i).timestamp l' = .zero at hnever
    rw [show (rowOf k (t.traceData i)).tracedata = t.traceData i from rfl, hnever,
      hunits] at hapart
    omega
  · exact htimespec

end Init

-- ============================================================= one trace

/-- The first two locations. -/
def loc0 : Fin locMax := ⟨0, by decide⟩
def loc1 : Fin locMax := ⟨1, by decide⟩

/-- A record of a probe, with zeros in the gap of its call. -/
def placeRecord (location : UInt8) (ts : RecordTs) : RecordFmt × UInt32 :=
  ({ tid := 3, location := location, probeSender := 0, probeIdx := 5, timestamp := ts }, 0)

/-- The second record of a probe is stored with the first. -/
theorem trace_twoPlaces {mmapOk : UInt32 → Bool} {env env' : CreateEnv}
    (hinit : initTraceTbl mmapOk env env' = some (.ok s₀)) (ts ts' : RecordTs) :
    ∃ s, Lts.trace readOne s₀ [placeRecord 0 ts, placeRecord 1 ts'] = some (s, [0, 0]) := by
  have hloc : ∀ x ∈ [placeRecord 0 ts], x.1.location.toNat < locMax :=
    List.forall_mem_singleton.mpr (show 0 < 16 by omega)
  obtain ⟨s₁, hfirst⟩ := trace_fits_init hinit hloc (List.nodup_singleton _)
    (show 1 ≤ 16383 by omega) fun b =>
      (List.length_filter_le _ _).trans (show 1 ≤ 4 by omega)
  obtain ⟨⟨avail, ht⟩, hs⟩ := trace_init hinit hloc hfirst
  obtain ⟨s, ret, avail', m, hread, hstep, -⟩ :=
    readOne_spec (x := placeRecord 1 ts') ht.inv hs (show 1 < 16 by omega)
  have hret : ret = 0 := by
    cases hstep with
    | store => rfl
    | refuse _ hnone =>
        -- the key is that of the first record
        rw [succeeded_replicate] at hs
        obtain ⟨i, hb⟩ := hs.binds (List.mem_singleton_self (placeRecord 0 ts))
        have hsome := (hs (keyOf (placeRecord 1 ts')) _).mpr ⟨i, hb, rfl⟩
        rw [succeeded_replicate, hsome] at hnone
        cases hnone
  obtain ⟨s₁', ret₁, rets, hread₁, hnil, hrets⟩ := Lts.trace_cons_eq_some.mp hfirst
  cases hnil
  refine ⟨s, Lts.trace_cons_eq_some.mpr ⟨s₁, 0, [0], ?_, ?_, rfl⟩⟩
  · cases hrets
    exact hread₁
  · exact Lts.trace_cons_eq_some.mpr ⟨s, 0, [], hret ▸ hread, rfl, rfl⟩

/-- Both times are on one line. -/
theorem twoPlaces_dumped (ts ts' : RecordTs) :
    ∃ s₀ s row printed, initTraceTbl (fun _ => true) okEnv okEnv = some (.ok s₀)
      ∧ readFiles s₀ [[placeRecord 0 ts, placeRecord 1 ts']] = some s
      ∧ row ∈ dumpAllTraces s ∧ s.macLoc = 1 ∧ printRow s.macLoc row = some printed
      ∧ row.tracedata.timestamp loc0 = ts ∧ row.tracedata.timestamp loc1 = ts' := by
  obtain ⟨s₀, hinit⟩ := init_returns
  obtain ⟨s, htrace⟩ := trace_twoPlaces hinit ts ts'
  have hloc : ∀ x ∈ [placeRecord 0 ts, placeRecord 1 ts'], x.1.location.toNat < locMax :=
    List.forall_mem_cons.mpr ⟨show 0 < 16 by omega,
      List.forall_mem_singleton.mpr (show 1 < 16 by omega)⟩
  obtain ⟨⟨avail, ht⟩, hs⟩ := trace_init hinit hloc htrace
  have hkeys : KeyedById [placeRecord 0 ts, placeRecord 1 ts'] := by
    intro x hx y hy
    simp only [List.mem_cons, List.not_mem_nil, or_false] at hx hy
    rcases hx with rfl | rfl <;> rcases hy with rfl | rfl <;> exact keyOf_eq_iff
  obtain ⟨row, hrow, -, hcells⟩ :=
    (dumps_grouped ht.inv hs hkeys hloc (0, 5) _).mpr
      ⟨⟨_, List.mem_cons_self, rfl⟩, rfl⟩
  have hmac : s.macLoc = 1 := by
    obtain ⟨hc₀, -⟩ := init_counted hinit
    have hlocated := (trace_located hc₀ htrace).2
    have habove : 1 ≤ s.macLoc.toNat := hlocated.above (placeRecord 1 ts') (by simp)
    rcases hlocated.seen with hzero | ⟨x, hx, hmac⟩
    · obtain ⟨tbl, r, r', -, -, -, rfl⟩ := init_cases hinit
      rw [hzero] at habove
      exact absurd habove (show ¬ 1 ≤ 0 by omega)
    · simp only [List.mem_cons, List.not_mem_nil, or_false] at hx
      rcases hx with rfl | rfl
      · rw [hmac] at habove
        exact absurd habove (show ¬ 1 ≤ 0 by omega)
      · exact hmac
  obtain ⟨columns, hcolumns⟩ := Option.isSome_iff_exists.mp
    ((dumpRow_isSome s.macLoc row).mpr (by rw [hmac]; decide))
  refine ⟨s₀, s, row, _, hinit, ?_, hrow, hmac, congrArg _ hcolumns, ?_, ?_⟩
  · rw [readFiles_eq]
    show (Lts.trace readOne s₀ [placeRecord 0 ts, placeRecord 1 ts']).map (·.1) = some s
    rw [htrace]
    rfl
  · exact congrArg Prod.snd (congrFun hcells loc0)
  · exact congrArg Prod.snd (congrFun hcells loc1)

/-- Two times of day, of which the second has fewer nanoseconds. -/
theorem dump_inOrder_iff_timespec :
    ∃ s₀ s row printed, initTraceTbl (fun _ => true) okEnv okEnv = some (.ok s₀)
      ∧ readFiles s₀ [[placeRecord 0 ⟨1, 5, 999999999⟩, placeRecord 1 ⟨1, 6, 1000⟩]] = some s
      ∧ row ∈ dumpAllTraces s ∧ printRow s.macLoc row = some printed
      ∧ InOrder printed loc0 loc1 := by
  obtain ⟨s₀, s, row, printed, hinit, hread, hrow, hmac, hprinted, hfirst, hsecond⟩ :=
    twoPlaces_dumped ⟨1, 5, 999999999⟩ ⟨1, 6, 1000⟩
  refine ⟨s₀, s, row, printed, hinit, hread, hrow, hprinted, ?_⟩
  refine (dump_inOrder_iff hinit hread).2 ?_ row hrow printed hprinted loc0 loc1 ?_ ?_ ?_
  · exact List.forall_mem_cons.mpr ⟨rfl, List.forall_mem_singleton.mpr rfl⟩
  · rw [hmac]
    decide
  · rw [hmac]
    decide
  · rw [hfirst, hsecond]
    exact ⟨rfl, .inr (by decide), .inr (by decide), by decide, by decide⟩

/-- Two counts of cycles, 4000 cycles apart, are both printed as 0. -/
theorem dump_cycles_zero :
    ∃ s₀ s row printed, initTraceTbl (fun _ => true) okEnv okEnv = some (.ok s₀)
      ∧ readFiles s₀ [[placeRecord 0 ⟨0, 5000, 0⟩, placeRecord 1 ⟨0, 9000, 0⟩]] = some s
      ∧ row ∈ dumpAllTraces s ∧ printRow s.macLoc row = some printed
      ∧ printed[0]?.map (·.2) = some 0 ∧ printed[1]?.map (·.2) = some 0
      ∧ Later (row.tracedata.timestamp loc0) (row.tracedata.timestamp loc1)
      ∧ ¬ InOrder printed loc0 loc1 := by
  obtain ⟨s₀, s, row, printed, hinit, hread, hrow, hmac, hprinted, hfirst, hsecond⟩ :=
    twoPlaces_dumped ⟨0, 5000, 0⟩ ⟨0, 9000, 0⟩
  have hzero : getTimeNs (row.tracedata.timestamp loc0) = 0 := by
    rw [hfirst]
    exact getTimeNs_cycles rfl
  have hzero' : getTimeNs (row.tracedata.timestamp loc1) = 0 := by
    rw [hsecond]
    exact getTimeNs_cycles rfl
  have hcolumn := printRow_getElem hprinted (l := loc0) (by rw [hmac]; decide)
  have hcolumn' := printRow_getElem hprinted (l := loc1) (by rw [hmac]; decide)
  refine ⟨s₀, s, row, printed, hinit, hread, hrow, hprinted, ?_, ?_, ?_, ?_⟩
  · rw [show (0 : Nat) = loc0.val from rfl, hcolumn, Option.map_some, hzero]
  · rw [show (1 : Nat) = loc1.val from rfl, hcolumn', Option.map_some, hzero']
  · rw [hfirst, hsecond]
    exact ⟨rfl, .inl rfl, .inl rfl, by decide, by decide⟩
  · rw [inOrder_iff hprinted (by rw [hmac]; decide) (by rw [hmac]; decide), hzero, hzero']
    decide

end PktSender.Dump
