/-
What the dump command writes.

`dumpAllTraces` writes one line for each key of the table, in the order of
its entries (`rowsAt_entries`). With the traces the invariant gives for a run
this is `dump_aggregates`: when the gap bytes are the same in every call, the
lines are the ids of the records that were stored, each once, with the last
values stored for each location.
-/
import PktSender.Dump.Proofs.Aggregate

namespace PktSender.Dump

open PktSender.Ring PktSender.Cuckoo

variable {s : DumpState} {avail : List UInt32} {m : Traces}

-- ================================================================ the loop

/-- The lines for the entries at some cursors. -/
def rowsAt (s : DumpState) (ks : List Nat) : List Row :=
  ks.filterMap fun k => (s.traceTbl.datum (posOf k)).map fun idx =>
    rowOf (s.traceTbl.key (posOf k)) (s.traceData idx)

/-- The loop from a cursor writes the entries from there on. -/
theorem dumpFrom_eq {free : List UInt32} (hi : Inv s.traceTbl free [])
    {ks : List Nat} {fuel c : Nat} (hfuel : ks.length < fuel)
    (hle : c ≤ 4 * s.traceTbl.numBuckets.toNat)
    (hks : s.traceTbl.entriesFrom c = ks) :
    dumpFrom s fuel (UInt32.ofNat c) = rowsAt s ks := by
  have hfew := hi.core.shape.few
  induction ks generalizing fuel c with
  | nil =>
      have hiter := iterate_nil hfew hle hks
      cases fuel with
      | zero => exact absurd hfuel (Nat.not_lt_zero _)
      | succ fuel =>
          rw [dumpFrom, hiter]
          rfl
  | cons k ks ih =>
      obtain ⟨hiter, hrest, -, hk⟩ := iterate_cons hfew hks
      cases fuel with
      | zero => exact absurd hfuel (Nat.not_lt_zero _)
      | succ fuel =>
          rw [List.length_cons] at hfuel
          have htail : dumpFrom s fuel (UInt32.ofNat (k + 1)) = rowsAt s ks :=
            ih (by omega) hk hrest
          have hocc : s.traceTbl.Occupied (posOf k) :=
            (mem_entriesFrom.mp (hks ▸ List.mem_cons_self)).2.2
          have hused := hi.core.used _ hocc
          have hret := hi.core.ret_eq hused
          rw [dumpFrom, hiter]
          simp only
          rw [if_pos (by rw [hret]; have := hused.1; omega)]
          unfold rowsAt at htail ⊢
          cases hd : s.traceTbl.datum (posOf k) with
          | none => rw [List.filterMap_cons_none (by rw [hd]; rfl), ← htail]
          | some idx =>
              rw [List.filterMap_cons_some (by rw [hd]; rfl), ← htail]

theorem dumpAllTraces_eq {free : List UInt32} (hi : Inv s.traceTbl free []) :
    dumpAllTraces s = rowsAt s (s.traceTbl.entriesFrom 0) := by
  refine dumpFrom_eq hi ?_ (Nat.zero_le _) rfl
  refine Nat.lt_succ_of_le ((List.length_filter_le _ _).trans ?_)
  rw [List.length_range', Nat.sub_zero]

/-- The cursors of the non-empty entries are the entries. -/
theorem map_key_entriesFrom :
    (s.traceTbl.entriesFrom 0).map (fun k => s.traceTbl.key (posOf k))
      = s.traceTbl.boundKeys := by
  unfold Tbl.entriesFrom Tbl.boundKeys positions
  rw [List.filter_map, List.map_map, List.range_eq_range', Nat.sub_zero]
  rfl

/-- There is a line for every key, under its id. -/
theorem ids_dumpAllTraces (hi : DumpInv s avail) :
    (dumpAllTraces s).map Row.id = s.traceTbl.boundKeys.map idOfKey := by
  obtain ⟨free, htbl⟩ := hi.table
  have hsome : ∀ ks : List Nat, (∀ k ∈ ks, s.traceTbl.Occupied (posOf k)) →
      (rowsAt s ks).map Row.id
        = ks.map fun k => idOfKey (s.traceTbl.key (posOf k)) := by
    intro ks
    induction ks with
    | nil => intro _; rfl
    | cons k ks ih =>
        intro hocc
        obtain ⟨x, hx, -⟩ := hi.own _ _
          ⟨posOf k, hocc k List.mem_cons_self, rfl, rfl⟩
        have htail := ih fun k' hk' => hocc k' (List.mem_cons_of_mem _ hk')
        unfold rowsAt at htail ⊢
        rw [List.filterMap_cons_some (by rw [hx]; rfl), List.map_cons, htail]
        rfl
  rw [dumpAllTraces_eq htbl, hsome _ fun k hk => (mem_entriesFrom.mp hk).2.2,
    ← map_key_entriesFrom, List.map_map]
  rfl

/-- A line is a key with what its index holds. -/
theorem mem_dumpAllTraces (hi : DumpInv s avail) {row : Row} :
    row ∈ dumpAllTraces s
      ↔ ∃ k x, s.traceTbl.Binds k (some x) ∧ rowOf k (s.traceData x) = row := by
  obtain ⟨free, htbl⟩ := hi.table
  rw [dumpAllTraces_eq htbl, rowsAt, List.mem_filterMap]
  constructor
  · intro hex
    obtain ⟨k, hk, hrow⟩ := hex
    obtain ⟨x, hx, rfl⟩ := Option.map_eq_some_iff.mp hrow
    exact ⟨_, x, ⟨posOf k, (mem_entriesFrom.mp hk).2.2, rfl, hx⟩, rfl⟩
  · intro hex
    obtain ⟨k, x, hb, rfl⟩ := hex
    have hmem : k ∈ s.traceTbl.boundKeys := htbl.core.mem_boundKeys.mpr ⟨_, hb⟩
    rw [← map_key_entriesFrom] at hmem
    obtain ⟨j, hj, rfl⟩ := List.mem_map.mp hmem
    have hx := htbl.core.binds_unique
      ⟨posOf j, (mem_entriesFrom.mp hj).2.2, rfl, rfl⟩ hb
    exact ⟨j, hj, by rw [hx]; rfl⟩

/-- The dump has a line with this id and these cells. -/
def Dumps (s : DumpState) (id : UInt32 × UInt64) (c : Fin locMax → Cell) : Prop :=
  ∃ row ∈ dumpAllTraces s, row.id = id ∧ row.cells = c

theorem dumps_iff (hi : DumpInv s avail) (hs : Shows s m) {id : UInt32 × UInt64}
    {c : Fin locMax → Cell} :
    Dumps s id c ↔ ∃ k, m k = some c ∧ idOfKey k = id := by
  constructor
  · intro hex
    obtain ⟨row, hrow, rfl, rfl⟩ := hex
    obtain ⟨k, x, hb, rfl⟩ := (mem_dumpAllTraces hi).mp hrow
    exact ⟨k, (hs k _).mpr ⟨x, hb, rfl⟩, rfl⟩
  · intro hex
    obtain ⟨k, hk, rfl⟩ := hex
    obtain ⟨x, hb, rfl⟩ := (hs k c).mp hk
    exact ⟨_, (mem_dumpAllTraces hi).mpr ⟨k, x, hb, rfl⟩, rfl, rfl⟩

-- ================================================================ the files

/-- Reading the files in order is reading their records in order. -/
theorem readFiles_eq (s : DumpState) (files : List (List (RecordFmt × UInt32))) :
    readFiles s files = (Lts.trace readOne s files.flatten).map (·.1) := by
  rw [Lts.trace_map_fst]
  unfold readFiles readRecord
  induction files generalizing s with
  | nil => rfl
  | cons file files ih =>
      rw [List.foldlM_cons, List.flatten_cons, List.foldlM_append]
      exact congrArg _ (funext fun s => ih s)

/-- With equal gaps the keys are as good as the ids. -/
theorem keyOf_eq_iff {r r' : RecordFmt} {gap : UInt32} :
    keyOf (r, gap) = keyOf (r', gap) ↔ r.id = r'.id := by
  constructor
  · intro h
    have hid := congrArg idOfKey h
    rwa [idOfKey_keyOf, idOfKey_keyOf] at hid
  · intro h
    obtain ⟨hport, hprobe⟩ := Prod.mk.inj h
    show traceId r.probeSender gap r.probeIdx = traceId r'.probeSender gap r'.probeIdx
    rw [hport, hprobe]

/-- The cell of the last of some records with this id and location, or
zero. -/
def lastCell (rs : List RecordFmt) (id : UInt32 × UInt64) (l : Fin locMax) : Cell :=
  match (rs.filter fun r => r.id = id ∧ r.location.toNat = l.val).getLast? with
  | some r => (r.tid, r.timestamp)
  | none => (0, .zero)

/-- Calls with different keys for different ids only. -/
def KeyedById (xs : List (RecordFmt × UInt32)) : Prop :=
  ∀ x ∈ xs, ∀ y ∈ xs, keyOf x = keyOf y ↔ x.1.id = y.1.id

theorem last_eq_lastCell {ok : List (RecordFmt × UInt32)} (hkeys : KeyedById ok)
    (hloc : ∀ x ∈ ok, x.1.location.toNat < locMax) {x : RecordFmt × UInt32}
    (hx : x ∈ ok) :
    LastWrite.last Cell.zero (ok.map entryOf) (keyOf x)
      = lastCell (ok.map Prod.fst) x.1.id := by
  funext l
  have hsame : ok.filter (fun y => keyOf y = keyOf x ∧ y.1.loc = l)
      = ok.filter fun y => y.1.id = x.1.id ∧ y.1.location.toNat = l.val := by
    refine List.filter_congr fun y hy => ?_
    refine decide_eq_decide.mpr (and_congr (hkeys y hy x hx) ?_)
    rw [← RecordFmt.loc_eq (hloc y hy), Fin.ext_iff]
  have hentries : ((ok.map entryOf).filter fun y => y.1 = keyOf x ∧ y.2.1 = l)
      = (ok.filter fun y => keyOf y = keyOf x ∧ y.1.loc = l).map entryOf :=
    List.filter_map
  have hrecords : ((ok.map Prod.fst).filter fun r =>
        r.id = x.1.id ∧ r.location.toNat = l.val)
      = (ok.filter fun y => y.1.id = x.1.id ∧ y.1.location.toNat = l.val).map
          Prod.fst := List.filter_map
  unfold LastWrite.last lastCell
  rw [hentries, hrecords, hsame, List.getLast?_map, List.getLast?_map]
  cases (ok.filter fun y =>
    y.1.id = x.1.id ∧ y.1.location.toNat = l.val).getLast? with
  | none => rfl
  | some y => rfl

/-- After a run whose calls are keyed by id, the keys of the table are those
of the stored records, and their cells the last ones stored. -/
theorem Shows.grouped {ok : List (RecordFmt × UInt32)}
    (hs : Shows s (LastWrite.writes Cell.zero (fun _ => none) (ok.map entryOf)))
    (hkeys : KeyedById ok) (hloc : ∀ x ∈ ok, x.1.location.toNat < locMax)
    {k : List UInt8} {i : UInt32} (hb : s.traceTbl.Binds k (some i)) :
    ∃ x ∈ ok, keyOf x = k
      ∧ (s.traceData i).cells = lastCell (ok.map Prod.fst) x.1.id := by
  obtain ⟨⟨y, hy, hyk⟩, hc⟩ := LastWrite.writes_eq_some.mp ((hs k _).mpr ⟨i, hb, rfl⟩)
  obtain ⟨x, hx, rfl⟩ := List.mem_map.mp hy
  subst hyk
  exact ⟨x, hx, rfl, hc.trans (last_eq_lastCell hkeys hloc hx)⟩

/-- A stored record has its key in the table. -/
theorem Shows.binds {ok : List (RecordFmt × UInt32)}
    (hs : Shows s (LastWrite.writes Cell.zero (fun _ => none) (ok.map entryOf)))
    {x : RecordFmt × UInt32} (hx : x ∈ ok) :
    ∃ i, s.traceTbl.Binds (keyOf x) (some i) := by
  obtain ⟨i, hb, -⟩ := (hs _ _).mp (LastWrite.writes_eq_some.mpr
    ⟨⟨entryOf x, List.mem_map_of_mem hx, rfl⟩, rfl⟩)
  exact ⟨i, hb⟩

/-- What is dumped after such a run. -/
theorem dumps_grouped (hi : DumpInv s avail) {ok : List (RecordFmt × UInt32)}
    (hs : Shows s (LastWrite.writes Cell.zero (fun _ => none) (ok.map entryOf)))
    (hkeys : KeyedById ok) (hloc : ∀ x ∈ ok, x.1.location.toNat < locMax)
    (id : UInt32 × UInt64) (c : Fin locMax → Cell) :
    Dumps s id c
      ↔ (∃ r ∈ ok.map Prod.fst, r.id = id) ∧ c = lastCell (ok.map Prod.fst) id := by
  constructor
  · intro hex
    obtain ⟨row, hrow, rfl, rfl⟩ := hex
    obtain ⟨k, i, hb, rfl⟩ := (mem_dumpAllTraces hi).mp hrow
    obtain ⟨x, hx, rfl, hc⟩ := hs.grouped hkeys hloc hb
    have hid : (rowOf (keyOf x) (s.traceData i)).id = x.1.id := idOfKey_keyOf x
    exact ⟨⟨x.1, List.mem_map_of_mem hx, hid.symm⟩, hid.symm ▸ hc⟩
  · intro hex
    obtain ⟨⟨r, hr, rfl⟩, rfl⟩ := hex
    obtain ⟨x, hx, rfl⟩ := List.mem_map.mp hr
    obtain ⟨i, hb⟩ := hs.binds hx
    obtain ⟨y, hy, hyx, hc⟩ := hs.grouped hkeys hloc hb
    rw [(hkeys y hy x hx).mp hyx] at hc
    exact ⟨_, (mem_dumpAllTraces hi).mpr ⟨_, i, hb, rfl⟩, idOfKey_keyOf x, hc⟩

/-- No id has two lines. -/
theorem nodup_ids_dumpAllTraces (hi : DumpInv s avail) {ok : List (RecordFmt × UInt32)}
    (hs : Shows s (LastWrite.writes Cell.zero (fun _ => none) (ok.map entryOf)))
    (hkeys : KeyedById ok) (hloc : ∀ x ∈ ok, x.1.location.toNat < locMax) :
    ((dumpAllTraces s).map Row.id).Nodup := by
  rw [ids_dumpAllTraces hi]
  obtain ⟨free, htbl⟩ := hi.table
  apply List.Nodup.map_on ?_ htbl.core.nodup_boundKeys
  intro k hk k' hk' heq
  obtain ⟨d, hb⟩ := htbl.core.mem_boundKeys.mp hk
  obtain ⟨d', hb'⟩ := htbl.core.mem_boundKeys.mp hk'
  obtain ⟨i, rfl, -⟩ := hi.own k d hb
  obtain ⟨i', rfl, -⟩ := hi.own k' d' hb'
  obtain ⟨x, hx, rfl, -⟩ := hs.grouped hkeys hloc hb
  obtain ⟨y, hy, rfl, -⟩ := hs.grouped hkeys hloc hb'
  rw [idOfKey_keyOf, idOfKey_keyOf] at heq
  exact (hkeys x hx y hy).mpr heq

theorem succeeded_map {α β : Type} (f : α → β) (xs : List α) (rets : List Int) :
    succeeded (xs.map f) rets = (succeeded xs rets).map f := by
  unfold succeeded
  rw [List.zip_map_left, List.filter_map, List.map_map, List.map_map]
  rfl

theorem mem_of_mem_succeeded {α : Type} {xs : List α} {rets : List Int} {x : α}
    (h : x ∈ succeeded xs rets) : x ∈ xs := by
  obtain ⟨p, hp, rfl⟩ := List.mem_map.mp h
  exact (List.of_mem_zip (List.mem_filter.mp hp).1).1

/-- A failed call shows in no line. -/
theorem dumps_of_failed (hi : DumpInv s avail) (hs : Shows s m)
    {x : RecordFmt × UInt32} (hloc : x.1.location.toNat < locMax) {s' : DumpState}
    {ret : Int} (hadd : addRecord s x.1 x.2 = some (s', ret)) (hfail : ret ≠ 0)
    (id : UInt32 × UInt64) (c : Fin locMax → Cell) :
    Dumps s' id c ↔ Dumps s id c := by
  obtain ⟨s'', ret', avail', m', hadd', hstep, hi', hs', -⟩ :=
    addRecord_spec hi hs hloc
  rw [hadd'] at hadd
  cases hadd
  cases hstep with
  | store => exact absurd rfl hfail
  | refuse => rw [dumps_iff hi' hs', dumps_iff hi hs]

section Runs

variable {mmapOk : UInt32 → Bool} {env env' : CreateEnv} {s₀ : DumpState}

/-- The dump command aggregates. After any files have been read, with the
same gap bytes in every call, the lines are the ids of the records whose call
returned 0, each once, and hold for each location the last such record's
values or zero; one more call that fails changes no line. -/
theorem dump_aggregates (hinit : initTraceTbl mmapOk env env' = some (.ok s₀))
    (gap : UInt32) {files : List (List RecordFmt)}
    (hloc : ∀ file ∈ files, ∀ r ∈ file, r.location.toNat < locMax) :
    ∃ s rets, readFiles s₀ (files.map fun file => file.map (·, gap)) = some s
      ∧ Lts.trace readOne s₀ (files.flatten.map (·, gap)) = some (s, rets)
      ∧ ((dumpAllTraces s).map Row.id).Nodup
      ∧ (∀ id, id ∈ (dumpAllTraces s).map Row.id
          ↔ ∃ r ∈ succeeded files.flatten rets, r.id = id)
      ∧ (∀ row ∈ dumpAllTraces s, ∀ l,
          (row.tracedata.tids l, row.tracedata.timestamp l)
            = lastCell (succeeded files.flatten rets) row.id l)
      ∧ ∀ (r : RecordFmt) (s' : DumpState) (ret : Int),
          r.location.toNat < locMax → addRecord s r gap = some (s', ret) →
          ret ≠ 0 → ∀ id c, Dumps s' id c ↔ Dumps s id c := by
  have hall : ∀ r ∈ files.flatten, r.location.toNat < locMax := by
    intro r hr
    obtain ⟨file, hfile, hr⟩ := List.mem_flatten.mp hr
    exact hloc file hfile r hr
  obtain ⟨hi₀, hs₀, -⟩ := init_inv hinit
  have hgap : ∀ x ∈ files.flatten.map (·, gap), x.1.location.toNat < locMax := by
    intro x hx
    obtain ⟨r, hr, rfl⟩ := List.mem_map.mp hx
    exact hall r hr
  obtain ⟨s, rets, htrace, ⟨avail, hi⟩, hs, -⟩ := trace_shows hi₀ hs₀ hgap
  rw [succeeded_map] at hs
  have hkeys : KeyedById ((succeeded files.flatten rets).map (·, gap)) := by
    intro x hx y hy
    obtain ⟨r, -, rfl⟩ := List.mem_map.mp hx
    obtain ⟨r', -, rfl⟩ := List.mem_map.mp hy
    exact keyOf_eq_iff
  have hok : ∀ x ∈ (succeeded files.flatten rets).map (·, gap),
      x.1.location.toNat < locMax := by
    intro x hx
    obtain ⟨r, hr, rfl⟩ := List.mem_map.mp hx
    exact hall r (mem_of_mem_succeeded hr)
  have hfst : ((succeeded files.flatten rets).map (·, gap)).map Prod.fst
      = succeeded files.flatten rets := by
    rw [List.map_map]
    exact List.map_id _
  have hdumps := dumps_grouped hi hs hkeys hok
  rw [hfst] at hdumps
  refine ⟨s, rets, ?_, htrace, ?_, fun id => ?_, fun row hrow l => ?_, ?_⟩
  · rw [readFiles_eq, ← List.map_flatten, htrace]
    rfl
  · exact nodup_ids_dumpAllTraces hi hs hkeys hok
  · rw [List.mem_map]
    constructor
    · intro hex
      obtain ⟨row, hrow, rfl⟩ := hex
      exact ((hdumps row.id row.cells).mp ⟨row, hrow, rfl, rfl⟩).1
    · intro hex
      obtain ⟨row, hrow, hid, -⟩ := (hdumps id _).mpr ⟨hex, rfl⟩
      exact ⟨row, hrow, hid⟩
  · exact congrFun ((hdumps row.id row.cells).mp ⟨row, hrow, rfl, rfl⟩).2 l
  · intro r s' ret hr hadd hfail id c
    exact dumps_of_failed (x := (r, gap)) hi hs hr hadd hfail id c

/-- Two files; the second has another value for a location of the first. -/
def twoFiles : List (List RecordFmt) :=
  [[{ tid := 3, location := 1, probeSender := 0, probeIdx := 5
      timestamp := { tsType := 0, word0 := 100, word1 := 0 } },
    { tid := 4, location := 15, probeSender := 1, probeIdx := 5
      timestamp := { tsType := 0, word0 := 110, word1 := 0 } }],
   [{ tid := 5, location := 1, probeSender := 0, probeIdx := 5
      timestamp := { tsType := 0, word0 := 120, word1 := 0 } }]]

theorem dump_aggregates_twoFiles :
    ∃ s₀ s rets, initTraceTbl (fun _ => true) okEnv okEnv = some (.ok s₀)
      ∧ readFiles s₀ (twoFiles.map fun file => file.map (·, 0)) = some s
      ∧ ((dumpAllTraces s).map Row.id).Nodup
      ∧ ∀ id, id ∈ (dumpAllTraces s).map Row.id
          ↔ ∃ r ∈ succeeded twoFiles.flatten rets, r.id = id := by
  obtain ⟨s₀, hinit⟩ := init_returns
  have hloc : ∀ file ∈ twoFiles, ∀ r ∈ file, r.location.toNat < locMax := by decide
  obtain ⟨s, rets, hread, -, hnodup, hids, -⟩ := dump_aggregates hinit 0 hloc
  exact ⟨s₀, s, rets, hinit, hread, hnodup, hids⟩

end Runs

end PktSender.Dump
