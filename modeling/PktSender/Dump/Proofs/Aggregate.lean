/-
The dump command groups the records by key.

# The abstract command

`AggStep` is what one call of `__add_record` does to a map from keys to
traces, a trace being one cell for each location: it writes one cell, and
the trace is new when the key is; or it is refused, which may happen to a
new key only, and changes nothing. Over a whole run that leaves in each cell
what was written there last (`LastWrite`).

# The invariant

`DumpInv s avail`: the table is between two calls, `avail` are the indices
in the ring, and each key of the table has an index of its own that is not
in the ring. A failed call of `cuckoohash_add_key_data` loses its index: it
is in neither then.
-/
import PktSender.Dump.Proofs.Available
import PktSender.Cuckoo.Proofs.Iterate
import PktSender.Cuckoo.Proofs.Room
import PktSender.Lib.LastWrite

namespace PktSender.Dump

open LittleEndian PktSender.Ring PktSender.Cuckoo

-- ===================================================== keys, ids and cells

/-- The id of a record, and of a line of the output. -/
def RecordFmt.id (r : RecordFmt) : UInt32 × UInt64 := (r.probeSender, r.probeIdx)

def Row.id (r : Row) : UInt32 × UInt64 := (r.portid, r.probeid)

/-- The key a call looks up. -/
def keyOf (x : RecordFmt × UInt32) : List UInt8 :=
  traceId x.1.probeSender x.2 x.1.probeIdx

/-- The id in a key. -/
def idOfKey (key : List UInt8) : UInt32 × UInt64 :=
  (UInt32.ofNat (ofLeBytes (key.take 4)), UInt64.ofNat (ofLeBytes (key.drop 8)))

@[simp] theorem length_keyOf (x : RecordFmt × UInt32) : (keyOf x).length = 16 := by
  simp [keyOf, traceId]

/-- The id in the key of a record is the record's, whatever the gap. -/
theorem idOfKey_keyOf (x : RecordFmt × UInt32) : idOfKey (keyOf x) = x.1.id := by
  have hport : x.1.probeSender.toNat < 256 ^ 4 := x.1.probeSender.toNat_lt
  have hprobe : x.1.probeIdx.toNat < 256 ^ 8 := x.1.probeIdx.toNat_lt
  unfold idOfKey keyOf traceId RecordFmt.id
  rw [List.append_assoc, List.take_left' (leBytes_length 4 _),
    ← List.append_assoc, List.drop_left' (by simp), ofLeBytes_leBytes,
    ofLeBytes_leBytes, Nat.mod_eq_of_lt hport, Nat.mod_eq_of_lt hprobe,
    UInt32.ofNat_toNat, UInt64.ofNat_toNat]

/-- A `tids` and a `timestamp` element. -/
abbrev Cell := Int32 × RecordTs

def Cell.zero : Cell := (0, .zero)

def TraceData.cells (t : TraceData) (l : Fin locMax) : Cell :=
  (t.tids l, t.timestamp l)

def Row.cells (r : Row) : Fin locMax → Cell := r.tracedata.cells

def RecordFmt.cell (r : RecordFmt) : Cell := (r.tid, r.timestamp)

/-- The place of a record in a trace, for a location inside the arrays. -/
def RecordFmt.loc (r : RecordFmt) : Fin locMax :=
  ⟨r.location.toNat % locMax, Nat.mod_lt _ (by decide)⟩

theorem RecordFmt.loc_eq {r : RecordFmt} (h : r.location.toNat < locMax) :
    (⟨r.location.toNat, h⟩ : Fin locMax) = r.loc :=
  Fin.ext (Nat.mod_eq_of_lt h).symm

theorem TraceData.write_eq {r : RecordFmt} (t : TraceData)
    (h : r.location.toNat < locMax) : t.write r = some (t.store r.loc r) := by
  rw [TraceData.write, dif_pos h, RecordFmt.loc_eq h]

theorem TraceData.write_eq_none {r : RecordFmt} (t : TraceData)
    (h : ¬ r.location.toNat < locMax) : t.write r = none :=
  dif_neg h

theorem TraceData.location_of_write {t t' : TraceData} {r : RecordFmt}
    (h : t.write r = some t') : r.location.toNat < locMax := by
  by_contra hloc
  rw [t.write_eq_none hloc] at h
  cases h

theorem cells_store (t : TraceData) (l : Fin locMax) (r : RecordFmt) :
    (t.store l r).cells = Function.update t.cells l r.cell := by
  funext l'
  by_cases hl : l' = l
  · subst hl
    simp [TraceData.cells, TraceData.store, RecordFmt.cell]
  · simp [TraceData.cells, TraceData.store, Function.update_of_ne hl]

-- ===================================================== the abstract command

/-- The traces by key. -/
abbrev Traces := List UInt8 → Option (Fin locMax → Cell)

/-- What a call may do to the traces. -/
inductive AggStep : Traces → RecordFmt × UInt32 → Int → Traces → Prop
  | store (m : Traces) (x : RecordFmt × UInt32) :
      AggStep m x 0 (LastWrite.write Cell.zero m (keyOf x) x.1.loc x.1.cell)
  | refuse {m : Traces} {x : RecordFmt × UInt32} {ret : Int} :
      ret < 0 → m (keyOf x) = none → AggStep m x ret m

/-- What a call that is not refused writes. -/
def entryOf (x : RecordFmt × UInt32) : List UInt8 × Fin locMax × Cell :=
  (keyOf x, x.1.loc, x.1.cell)

/-- The calls that returned 0. -/
def succeeded {α : Type} (xs : List α) (rets : List Int) : List α :=
  ((xs.zip rets).filter fun p => p.2 = 0).map Prod.fst

/-- A whole run leaves what the calls that returned 0 wrote. -/
theorem specRun_writes {m m' : Traces} {xs : List (RecordFmt × UInt32)}
    {rets : List Int} (h : Lts.SpecRun AggStep m xs rets m') :
    m' = LastWrite.writes Cell.zero m ((succeeded xs rets).map entryOf) := by
  induction h with
  | nil m => rfl
  | cons hstep _ ih =>
      rw [ih]
      cases hstep with
      | store => rfl
      | refuse hneg _ =>
          unfold succeeded
          rw [List.zip_cons_cons, List.filter_cons_of_neg]
          exact fun hz => absurd (of_decide_eq_true hz) hneg.ne

-- ============================================================ the invariant

/-- Each key of the table has an index of its own. -/
structure DumpInv (s : DumpState) (avail : List UInt32) : Prop where
  table : ∃ free, Inv s.traceTbl free []
  keyLen : s.traceTbl.keyLen = sizeofTraceId
  ring : HoldsItems s.traceDataRing avail
  nodup : avail.Nodup
  bound : ∀ x ∈ avail, x.toNat < traceMax
  own : ∀ k d, s.traceTbl.Binds k d → ∃ x, d = some x ∧ x ∉ avail
  inj : ∀ k k' d, s.traceTbl.Binds k d → s.traceTbl.Binds k' d → k = k'

/-- The table and the array stand for these traces. -/
def Shows (s : DumpState) (m : Traces) : Prop :=
  ∀ k c, m k = some c
    ↔ ∃ x, s.traceTbl.Binds k (some x) ∧ (s.traceData x).cells = c

namespace Shows

variable {s s' : DumpState} {m : Traces} {key : List UInt8} {idx : UInt32}

/-- A call that stores to index `idx` and leaves `key` with it. -/
theorem store (hs : Shows s m) {t : TraceData}
    (hb : ∀ k d, s'.traceTbl.Binds k d
      ↔ if k = key then d = some idx else s.traceTbl.Binds k d)
    (hdata : s'.traceData = Function.update s.traceData idx t)
    (hother : ∀ k, k ≠ key → ¬ s.traceTbl.Binds k (some idx)) :
    Shows s' (Function.update m key (some t.cells)) := by
  intro k c
  by_cases hk : k = key
  · subst hk
    rw [Function.update_self, Option.some.injEq]
    constructor
    · intro heq
      subst heq
      exact ⟨idx, (hb k _).mpr (by rw [if_pos rfl]),
        by rw [hdata, Function.update_self]⟩
    · intro hex
      obtain ⟨x, hx, rfl⟩ := hex
      rw [hb, if_pos rfl, Option.some.injEq] at hx
      rw [hx, hdata, Function.update_self]
  · rw [Function.update_of_ne hk, hs k c]
    refine exists_congr fun x => ?_
    rw [hb, if_neg hk, hdata]
    refine and_congr_right fun hx => ?_
    rw [Function.update_of_ne]
    intro heq
    subst heq
    exact hother k hk hx

/-- A call that binds nothing and stores to no index in use. -/
theorem keep (hs : Shows s m)
    (hb : ∀ k d, s'.traceTbl.Binds k d ↔ s.traceTbl.Binds k d)
    (hdata : ∀ k x, s.traceTbl.Binds k (some x) →
      s'.traceData x = s.traceData x) : Shows s' m := by
  intro k c
  rw [hs k c]
  refine exists_congr fun x => ?_
  rw [hb]
  exact and_congr_right fun hx => by rw [hdata k x hx]

theorem eq_none (hs : Shows s m)
    (hno : ∀ p, s.traceTbl.Occupied p → s.traceTbl.key p ≠ key) :
    m key = none := by
  cases hm : m key with
  | none => rfl
  | some c =>
      obtain ⟨x, ⟨p, hp, hk, -⟩, -⟩ := (hs key c).mp hm
      exact absurd hk (hno p hp)

end Shows

-- ================================================================ one call

section AddRecord

variable {s : DumpState} {avail : List UInt32} {m : Traces}
  {x : RecordFmt × UInt32}

/-- The key of a call has the length of the table's keys. -/
theorem DumpInv.length_keyOf (hi : DumpInv s avail) (x : RecordFmt × UInt32) :
    (keyOf x).length = s.traceTbl.keyLen.toNat := by
  rw [Dump.length_keyOf, hi.keyLen]
  rfl

/-- The key is there. -/
theorem addRecord_eq_update (hi : DumpInv s avail) {p : Pos}
    (hp : s.traceTbl.Occupied p) (hk : s.traceTbl.key p = keyOf x) :
    ∃ idx, s.traceTbl.Binds (keyOf x) (some idx)
      ∧ addRecord s x.1 x.2 = ((s.traceData idx).write x.1).map fun t =>
          (s.setTrace idx t, 0) := by
  obtain ⟨free, htbl⟩ := hi.table
  have hbinds : s.traceTbl.Binds (keyOf x) (s.traceTbl.datum p) := ⟨p, hp, hk, rfl⟩
  obtain ⟨idx, hidx, -⟩ := hi.own _ _ hbinds
  have hused := (htbl.core.used p hp).1
  have hlook := lookup_present htbl.core hp hk
  rw [hidx] at hlook hbinds
  refine ⟨idx, hbinds, ?_⟩
  unfold addRecord
  rw [show traceId x.1.probeSender x.2 x.1.probeIdx = keyOf x from rfl]
  simp only
  rw [hlook]
  simp only
  rw [if_neg (by omega)]

/-- No index is available: the record is refused. -/
theorem addRecord_eq_refuse (hi : DumpInv s [])
    (hno : ∀ p, s.traceTbl.Occupied p → s.traceTbl.key p ≠ keyOf x) :
    ∃ r, HoldsItems r []
      ∧ addRecord s x.1 x.2 = some ({ s with traceDataRing := r }, errOutOfRange) := by
  obtain ⟨r, hget, hr, -⟩ := get_item_nil hi.ring
  refine ⟨r, hr, ?_⟩
  unfold addRecord
  rw [show traceId x.1.probeSender x.2 x.1.probeIdx = keyOf x from rfl]
  simp only
  rw [lookup_absent hno]
  simp only
  rw [if_pos (by decide), hget]
  rfl

/-- The key is new and an index available: what happens is up to the
table. -/
theorem addRecord_eq_insert {idx : UInt32} (hi : DumpInv s (idx :: avail))
    (hno : ∀ p, s.traceTbl.Occupied p → s.traceTbl.key p ≠ keyOf x) :
    ∃ r, HoldsItems r avail ∧ addRecord s x.1 x.2
      = (({ TraceData.zero with idx := idx } : TraceData).write x.1).bind fun t =>
          (cuckoohashAddKeyData s.traceTbl (keyOf x) (some idx)).map fun q =>
            ({ s with
                traceDataRing := r
                traceData := Function.update s.traceData idx t
                traceTbl := q.1 }, if q.2 < 0 then q.2 else 0) := by
  obtain ⟨r, hget, hr, -⟩ := get_item_cons hi.ring
  refine ⟨r, hr, ?_⟩
  unfold addRecord
  rw [show traceId x.1.probeSender x.2 x.1.probeIdx = keyOf x from rfl]
  simp only
  rw [lookup_absent hno]
  simp only
  rw [if_pos (by decide), hget]
  simp only
  rw [ofLeBytes_itemBytes, if_neg (by decide),
    if_pos (hi.bound idx List.mem_cons_self)]
  rfl

/-- The key is there: one cell of its trace is written. -/
theorem addRecord_present (hi : DumpInv s avail) (hs : Shows s m)
    (hloc : x.1.location.toNat < locMax) {p : Pos}
    (hp : s.traceTbl.Occupied p) (hk : s.traceTbl.key p = keyOf x) :
    ∃ s', addRecord s x.1 x.2 = some (s', 0) ∧ DumpInv s' avail
      ∧ Shows s' (LastWrite.write Cell.zero m (keyOf x) x.1.loc x.1.cell)
      ∧ s'.traceTbl = s.traceTbl := by
  obtain ⟨free, htbl⟩ := hi.table
  obtain ⟨idx, hbinds, hadd⟩ := addRecord_eq_update hi hp hk
  rw [TraceData.write_eq _ hloc] at hadd
  refine ⟨_, hadd, { hi with }, ?_, rfl⟩
  have hold : m (keyOf x) = some (s.traceData idx).cells :=
    (hs _ _).mpr ⟨idx, hbinds, rfl⟩
  rw [LastWrite.write, hold, Option.getD_some, ← cells_store]
  refine hs.store (fun k d => ?_) rfl fun k hne hb =>
    hne (hi.inj _ _ _ hb hbinds)
  split
  next hkk =>
    rw [hkk]
    exact ⟨fun hb => htbl.core.binds_unique hb hbinds, fun hd => hd ▸ hbinds⟩
  next => rfl

/-- No index is available: nothing happens. -/
theorem addRecord_nil (hi : DumpInv s []) (hs : Shows s m)
    (hno : ∀ p, s.traceTbl.Occupied p → s.traceTbl.key p ≠ keyOf x) :
    ∃ s', addRecord s x.1 x.2 = some (s', errOutOfRange) ∧ DumpInv s' []
      ∧ Shows s' m ∧ s'.traceTbl = s.traceTbl := by
  obtain ⟨r, hr, hadd⟩ := addRecord_eq_refuse hi hno
  exact ⟨_, hadd, { hi with ring := hr },
    hs.keep (fun _ _ => Iff.rfl) fun _ _ _ => rfl, rfl⟩

/-- A new key inside the arrays. -/
theorem addRecord_cons {idx : UInt32} (hi : DumpInv s (idx :: avail))
    (hloc : x.1.location.toNat < locMax)
    (hno : ∀ p, s.traceTbl.Occupied p → s.traceTbl.key p ≠ keyOf x) :
    ∃ r, HoldsItems r avail ∧ addRecord s x.1 x.2
      = (cuckoohashAddKeyData s.traceTbl (keyOf x) (some idx)).map fun q =>
          ({ s with
              traceDataRing := r
              traceData := Function.update s.traceData idx
                (({ TraceData.zero with idx := idx } : TraceData).store
                  x.1.loc x.1)
              traceTbl := q.1 }, if q.2 < 0 then q.2 else 0) := by
  obtain ⟨r, hr, hadd⟩ := addRecord_eq_insert hi hno
  rw [TraceData.write_eq _ hloc, Option.bind_some] at hadd
  exact ⟨r, hr, hadd⟩

/-- An index in the ring is with no key. -/
theorem DumpInv.unused {idx : UInt32} (hi : DumpInv s (idx :: avail))
    (k : List UInt8) : ¬ s.traceTbl.Binds k (some idx) := by
  intro hb
  obtain ⟨y, hy, hmem⟩ := hi.own k _ hb
  cases hy
  exact hmem List.mem_cons_self

/-- The oldest index goes to a new key. -/
theorem DumpInv.insert {s' : DumpState} {idx : UInt32} {key : List UInt8}
    (hi : DumpInv s (idx :: avail)) (htbl : ∃ free, Inv s'.traceTbl free [])
    (hh : s'.traceTbl.header = s.traceTbl.header)
    (hr : HoldsItems s'.traceDataRing avail)
    (hb : s.traceTbl.BindsAfter s'.traceTbl key (some idx)) : DumpInv s' avail := by
  obtain ⟨hidx, hnodup⟩ := List.nodup_cons.mp hi.nodup
  refine ⟨htbl, (header_keyLen hh).trans hi.keyLen, hr, hnodup,
    fun y hy => hi.bound y (List.mem_cons_of_mem _ hy), fun k d hkd => ?_,
    fun k k' d hkd hkd' => ?_⟩
  · rw [hb k d] at hkd
    split at hkd
    next => exact ⟨idx, hkd, hidx⟩
    next =>
      obtain ⟨y, rfl, hmem⟩ := hi.own k d hkd
      exact ⟨y, rfl, fun hy => hmem (List.mem_cons_of_mem _ hy)⟩
  · rw [hb k d] at hkd
    rw [hb k' d] at hkd'
    split at hkd
    next hk =>
      split at hkd'
      next hk' => exact hk.trans hk'.symm
      next => exact absurd (hkd ▸ hkd') (hi.unused k')
    next =>
      split at hkd'
      next => exact absurd (hkd' ▸ hkd) (hi.unused k)
      next => exact hi.inj k k' d hkd hkd'

/-- The oldest index goes nowhere. -/
theorem DumpInv.lose {s' : DumpState} {idx : UInt32}
    (hi : DumpInv s (idx :: avail)) (htbl : ∃ free, Inv s'.traceTbl free [])
    (hh : s'.traceTbl.header = s.traceTbl.header)
    (hr : HoldsItems s'.traceDataRing avail)
    (hb : ∀ k d, s'.traceTbl.Binds k d ↔ s.traceTbl.Binds k d) :
    DumpInv s' avail := by
  refine ⟨htbl, (header_keyLen hh).trans hi.keyLen, hr, (List.nodup_cons.mp hi.nodup).2,
    fun y hy => hi.bound y (List.mem_cons_of_mem _ hy), fun k d hkd => ?_,
    fun k k' d hkd hkd' => hi.inj k k' d ((hb k d).mp hkd) ((hb k' d).mp hkd')⟩
  obtain ⟨y, rfl, hmem⟩ := hi.own k d ((hb k d).mp hkd)
  exact ⟨y, rfl, fun hy => hmem (List.mem_cons_of_mem _ hy)⟩

/-- One call is a step of the abstract command and takes at most one
index. -/
theorem addRecord_spec (hi : DumpInv s avail) (hs : Shows s m)
    (hloc : x.1.location.toNat < locMax) :
    ∃ s' ret avail' m', addRecord s x.1 x.2 = some (s', ret)
      ∧ AggStep m x ret m' ∧ DumpInv s' avail' ∧ Shows s' m'
      ∧ s'.traceTbl.header = s.traceTbl.header
      ∧ avail.length ≤ avail'.length + 1 := by
  by_cases hp : ∃ p, s.traceTbl.Occupied p ∧ s.traceTbl.key p = keyOf x
  · obtain ⟨p, hp, hk⟩ := hp
    obtain ⟨s', hadd, hi', hs', htbl⟩ := addRecord_present hi hs hloc hp hk
    exact ⟨s', 0, avail, _, hadd, .store m x, hi', hs', by rw [htbl],
      Nat.le_succ _⟩
  have hno : ∀ p, s.traceTbl.Occupied p → s.traceTbl.key p ≠ keyOf x :=
    fun p hp' hk => hp ⟨p, hp', hk⟩
  cases avail with
  | nil =>
      obtain ⟨s', hadd, hi', hs', htbl⟩ := addRecord_nil hi hs hno
      exact ⟨s', errOutOfRange, [], m, hadd,
        .refuse (by decide) (hs.eq_none hno), hi', hs', by rw [htbl],
        Nat.le_succ _⟩
  | cons idx avail =>
      obtain ⟨r, hr, hadd⟩ := addRecord_cons hi hloc hno
      obtain ⟨free, htbl⟩ := hi.table
      obtain ⟨h', ret, hcall, htbl', hh, ⟨rfl, hb⟩ | ⟨rfl, hb⟩⟩ :=
        addKey_spec htbl (hi.length_keyOf x) (some idx)
      · rw [hcall] at hadd
        refine ⟨_, _, avail, _, hadd, .store m x, hi.insert htbl' hh hr hb, ?_, hh,
          Nat.le_refl _⟩
        rw [LastWrite.write, hs.eq_none hno, Option.getD_none]
        have hcells : (({ TraceData.zero with idx := idx } : TraceData).store
            x.1.loc x.1).cells
              = Function.update (fun _ => Cell.zero) x.1.loc x.1.cell :=
          cells_store _ _ _
        rw [← hcells]
        exact hs.store hb rfl fun k _ => hi.unused k
      · rw [hcall] at hadd
        refine ⟨_, -ENOSPC, avail, m, hadd, .refuse (by decide) (hs.eq_none hno),
          hi.lose htbl' hh hr hb, ?_, hh, Nat.le_refl _⟩
        refine hs.keep hb fun k y hby => Function.update_of_ne ?_ _ _
        intro heq
        subst heq
        exact hi.unused k hby

end AddRecord

-- =============================================================== the start

/-- The indices `__init_trace_tbl` makes available: the ring keeps a byte
free, so the last one is dropped. -/
def freshIndices : List UInt32 :=
  ((List.range traceMax).map UInt32.ofNat).take (traceMax - 1)

theorem length_freshIndices : freshIndices.length = 16383 := by
  rw [freshIndices, List.length_take, List.length_map, List.length_range,
    Nat.min_eq_left (Nat.sub_le _ _), traceMax]

theorem nodup_freshIndices : freshIndices.Nodup := by
  refine (List.Nodup.map_on (fun i hi j hj heq => ?_)
    List.nodup_range).sublist (List.take_sublist _ _)
  have hi' := List.mem_range.mp hi
  have hj' := List.mem_range.mp hj
  have hnat := congrArg UInt32.toNat heq
  unfold traceMax at hi' hj'
  rwa [UInt32.toNat_ofNat', UInt32.toNat_ofNat', Nat.mod_eq_of_lt (by omega),
    Nat.mod_eq_of_lt (by omega)] at hnat

theorem freshIndices_lt {x : UInt32} (hx : x ∈ freshIndices) :
    x.toNat < traceMax := by
  obtain ⟨i, hi, rfl⟩ := List.mem_map.mp (List.mem_of_mem_take hx)
  rw [UInt32.toNat_ofNat']
  exact Nat.lt_of_le_of_lt (Nat.mod_le _ _) (List.mem_range.mp hi)

section Init

variable {mmapOk : UInt32 → Bool} {env env' : CreateEnv} {s : DumpState}

/-- The loop of `__init_trace_tbl` on a new ring. -/
theorem populateIndices_spec {r : Ringbuffer}
    (hr : ringbufferCreate env' none (4 * UInt32.ofNat traceMax) = some r) :
    ∃ r', populateIndices r traceMax = some r' ∧ HoldsItems r' freshIndices := by
  obtain ⟨r', k, hpop, hr', -, hpow⟩ :=
    populate_items (n := traceMax) (by decide) (by decide) hr
  have heq : traceMax = 2 ^ k := hpow ⟨14, rfl⟩
  rw [← heq] at hr'
  exact ⟨r', hpop, hr'⟩

/-- What a call of `__init_trace_tbl` that succeeds has done. -/
theorem init_cases (h : initTraceTbl mmapOk env env' = some (.ok s)) :
    ∃ tbl r r', cuckoohashCreate mmapOk env sizeofTraceId (UInt32.ofNat traceMax)
        = some (.ok tbl)
      ∧ ringbufferCreate env' none (4 * UInt32.ofNat traceMax) = some r
      ∧ populateIndices r traceMax = some r'
      ∧ s = { traceTbl := tbl, traceData := fun _ => .zero
              traceDataRing := r', macLoc := 0 } := by
  unfold initTraceTbl at h
  split at h
  next => cases h
  next => cases h
  next tbl htbl =>
    split at h
    next => cases h
    next r hr =>
      obtain ⟨r', hpop, hs⟩ := Option.map_eq_some_iff.mp h
      cases hs
      exact ⟨tbl, r, r', htbl, hr, hpop, rfl⟩

theorem exactSize_dump :
    exactSize sizeofTraceId (UInt32.ofNat traceMax) < 2 ^ 32 := by
  decide

/-- At the start no trace is there, and the table has 4096 buckets and 16384
slots. -/
theorem init_inv (h : initTraceTbl mmapOk env env' = some (.ok s)) :
    DumpInv s freshIndices ∧ Shows s (fun _ => none)
      ∧ s.traceTbl.numBuckets = 4096 ∧ s.traceTbl.entries = 16384 := by
  obtain ⟨tbl, r, r', htbl, hr, hpop, rfl⟩ := init_cases h
  obtain ⟨hi, hnone, hlen, hentries, hbuckets⟩ := create_inv exactSize_dump htbl
  obtain ⟨r'', hpop', hr'⟩ := populateIndices_spec hr
  rw [hpop'] at hpop
  cases hpop
  have hno : ∀ k d, ¬ tbl.Binds k d := fun k d ⟨p, hp, _⟩ => hnone p hp
  refine ⟨⟨⟨_, hi⟩, hlen, hr', nodup_freshIndices, fun x => freshIndices_lt,
    fun k d hb => absurd hb (hno k d), fun k _ d hb => absurd hb (hno k d)⟩,
    fun k c => iff_of_false nofun fun ⟨x, hb, _⟩ => hno k _ hb, ?_, ?_⟩
  · rw [hbuckets]
    decide
  · rw [hentries]
    decide

/-- A call whose allocations and puts succeed does. -/
theorem init_of {tbl : Tbl (Option UInt32)} {r r' : Ringbuffer}
    (htbl : cuckoohashCreate mmapOk env sizeofTraceId (UInt32.ofNat traceMax)
      = some (.ok tbl))
    (hr : ringbufferCreate env' none (4 * UInt32.ofNat traceMax) = some r)
    (hpop : populateIndices r traceMax = some r') :
    ∃ s, initTraceTbl mmapOk env env' = some (.ok s) := by
  unfold initTraceTbl
  rw [htbl]
  simp only
  rw [hr]
  simp only
  rw [hpop]
  exact ⟨_, rfl⟩

/-- With them `__init_trace_tbl` succeeds. -/
theorem init_returns : ∃ s, initTraceTbl (fun _ => true) okEnv okEnv = some (.ok s) := by
  have hkey : 1 ≤ sizeofTraceId.toNat := by decide
  have hnr : 1 ≤ (UInt32.ofNat traceMax).toNat := by decide
  obtain ⟨tbl, htbl⟩ := create_returns (D := Option UInt32) hkey hnr exactSize_dump
  obtain ⟨r, hr⟩ := ringbufferCreate_okEnv (4 * UInt32.ofNat traceMax)
  obtain ⟨r', hpop, -⟩ := populateIndices_spec hr
  exact init_of htbl hr hpop

end Init

-- ============================================================== whole runs

/-- One turn of the reading loop is a step of the abstract command. -/
theorem readOne_spec {s : DumpState} {avail : List UInt32} {m : Traces}
    {x : RecordFmt × UInt32} (hi : DumpInv s avail) (hs : Shows s m)
    (hloc : x.1.location.toNat < locMax) :
    ∃ s' ret avail' m', readOne s x = some (s', ret)
      ∧ AggStep m x ret m' ∧ DumpInv s' avail' ∧ Shows s' m'
      ∧ s'.traceTbl.header = s.traceTbl.header
      ∧ avail.length ≤ avail'.length + 1 :=
  addRecord_spec (s := { s with
    macLoc := if x.1.location > s.macLoc then x.1.location else s.macLoc })
    { hi with } hs hloc

/-- Every sequence of records is read, and its traces are those of the
records that were stored. -/
theorem trace_shows {s₀ : DumpState} {avail : List UInt32}
    (hi : DumpInv s₀ avail) (hs : Shows s₀ (fun _ => none))
    {xs : List (RecordFmt × UInt32)}
    (hloc : ∀ x ∈ xs, x.1.location.toNat < locMax) :
    ∃ s rets, Lts.trace readOne s₀ xs = some (s, rets)
      ∧ (∃ avail, DumpInv s avail)
      ∧ Shows s (LastWrite.writes Cell.zero (fun _ => none)
          ((succeeded xs rets).map entryOf))
      ∧ s.traceTbl.header = s₀.traceTbl.header := by
  obtain ⟨s, rets, m, htrace, hrun, hinv, hshow, hh⟩ :=
    Lts.trace_simulates
      (R := fun s m => (∃ avail, DumpInv s avail) ∧ Shows s m
        ∧ s.traceTbl.header = s₀.traceTbl.header)
      (V := fun x : RecordFmt × UInt32 => x.1.location.toNat < locMax)
      (fun x hR hx => by
        obtain ⟨⟨avail, hi'⟩, hs', hh⟩ := hR
        obtain ⟨s', ret, avail', m', hread, hstep, hi'', hs'', hh', -⟩ :=
          readOne_spec hi' hs' hx
        exact ⟨s', ret, m', hread, hstep, ⟨avail', hi''⟩, hs'', hh'.trans hh⟩)
      ⟨⟨avail, hi⟩, hs, rfl⟩ hloc
  rw [specRun_writes hrun] at hshow
  exact ⟨s, rets, htrace, hinv, hshow, hh⟩

end PktSender.Dump
