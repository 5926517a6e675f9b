/-
The index a failed call loses.

`__add_record` takes an index out of the ring, and only then asks the table
to take the key. When the table refuses, the index is in neither place, and
nothing ever brings it back. The table refuses a new key for one reason here:
its primary bucket is full and the path of alternative buckets from it is
blocked (`Tbl.NoPlace`). It always has a slot, as there are more slots than
indices.

So the number of traces and free indices together never grows, and it drops
by one with every call of this kind (`addRecord_counts`).
-/
import PktSender.Cuckoo.Proofs.Walk
import PktSender.Dump.Proofs.Gap

namespace PktSender.Dump

open PktSender.Hash PktSender.Ring PktSender.Cuckoo

variable {s s' s₀ : DumpState} {avail : List UInt32} {x : RecordFmt × UInt32}

-- =========================================================== what is kept

/-- An index that can be obtained from the ring. -/
def Available (s : DumpState) (idx : UInt32) : Prop :=
  ∃ avail, HoldsItems s.traceDataRing avail ∧ idx ∈ avail

/-- The same indices are available, the same keys bound, and the traces in
the table hold the same data. -/
structure Unchanged (s s' : DumpState) : Prop where
  avail : ∀ idx, Available s' idx ↔ Available s idx
  binds : ∀ k d, s'.traceTbl.Binds k d ↔ s.traceTbl.Binds k d
  data : ∀ k idx, s.traceTbl.Binds k (some idx) →
    s'.traceData idx = s.traceData idx

/-- The traces in the table and the free indices. -/
def DumpState.total (s : DumpState) : Nat :=
  s.traceTbl.boundKeys.length + s.traceDataRing.contents.length / 4

/-- The key is in the table, or no index is free, or the table has a place
for a new key. -/
def Accepts (s : DumpState) (x : RecordFmt × UInt32) : Prop :=
  (∃ d, s.traceTbl.Binds (keyOf x) d) ∨ s.traceDataRing.contents = []
    ∨ ¬ s.traceTbl.NoPlace (keyOf x)

/-- The invariant of the command, with fewer traces and indices than slots.
Once an index is out there is a trace: only a full bucket lets an add fail. -/
structure Counted (s : DumpState) (avail : List UInt32) : Prop where
  inv : DumpInv s avail
  entries : s.traceTbl.entries = 16384
  few : s.traceTbl.boundKeys.length + avail.length ≤ 16383
  started : avail.length = 16383 ∨ 0 < s.traceTbl.boundKeys.length

theorem Counted.setMacLoc (hc : Counted s avail) (macLoc : UInt8) :
    Counted { s with macLoc := macLoc } avail :=
  ⟨{ hc.inv with }, hc.entries, hc.few, hc.started⟩

theorem total_eq (hr : HoldsItems s.traceDataRing avail) :
    s.total = s.traceTbl.boundKeys.length + avail.length := by
  rw [DumpState.total, hr.contents_eq, length_flatMap_itemBytes,
    Nat.mul_div_cancel_left _ (by decide)]

theorem available_iff (hr : HoldsItems s.traceDataRing avail) {idx : UInt32} :
    Available s idx ↔ idx ∈ avail := by
  constructor
  · intro hex
    obtain ⟨avail', hr', hmem⟩ := hex
    exact hr.unique hr' ▸ hmem
  · intro hmem
    exact ⟨avail, hr, hmem⟩

-- ================================================================ one call

/-- What a call does to the count. Either the table accepts, and then a call
that fails has found no index and changes nothing; or the call fails and an
index is lost. -/
def Counts (s s' : DumpState) (x : RecordFmt × UInt32) (ret : Int) : Prop :=
  (Accepts s x ∧ s'.total = s.total
      ∧ (ret < 0 → Unchanged s s' ∧ s.traceDataRing.contents = []))
    ∨ (¬ Accepts s x ∧ ret < 0 ∧ ¬ Unchanged s s' ∧ s'.total + 1 = s.total)

/-- What a call does besides: the largest location is not its business, no
trace goes away, and a record from outside the arrays only passes when there
are traces. -/
structure Passes (s s' : DumpState) (x : RecordFmt × UInt32) : Prop where
  macLoc : s'.macLoc = s.macLoc
  keys : s.traceTbl.boundKeys.length ≤ s'.traceTbl.boundKeys.length
  inside : x.1.location.toNat < locMax ∨ 0 < s'.traceTbl.boundKeys.length

section Refused

variable {idx : UInt32}

/-- A new key the table has no place for, with an index at hand. -/
theorem not_accepts (hi : DumpInv s (idx :: avail))
    (hno : ∀ p, s.traceTbl.Occupied p → s.traceTbl.key p ≠ keyOf x)
    (hfull : s.traceTbl.NoPlace (keyOf x)) : ¬ Accepts s x := by
  intro hacc
  rcases hacc with ⟨d, hd⟩ | hnil | hplace
  · obtain ⟨p, hp, hk, -⟩ := hd
    exact hno p hp hk
  · cases hi.ring.contents_eq_nil.mp hnil
  · exact hplace hfull

/-- A free index is taken and nothing else becomes free. -/
theorem not_unchanged (hi : DumpInv s (idx :: avail))
    (hr : HoldsItems s'.traceDataRing avail) : ¬ Unchanged s s' := by
  intro hun
  have hfree : Available s idx := (available_iff hi.ring).mpr List.mem_cons_self
  have hmem : idx ∈ avail := (available_iff hr).mp ((hun.avail idx).mpr hfree)
  exact (List.nodup_cons.mp hi.nodup).1 hmem

/-- The primary bucket of a key the table has no place for is full. -/
theorem boundKeys_pos_of_noPlace {free : List UInt32} {key : List UInt8}
    (htbl : Inv s.traceTbl free []) (hplace : s.traceTbl.NoPlace key) :
    0 < s.traceTbl.boundKeys.length := by
  have hmem := htbl.core.mem_boundKeys.mpr
    ⟨_, _, hplace.1 ⟨0, by decide⟩, rfl, rfl⟩
  exact List.length_pos_of_mem hmem

end Refused

/-- A new key with an index at hand. -/
theorem addRecord_counts_new {idx : UInt32} {ret : Int}
    (hc : Counted s (idx :: avail))
    (hno : ∀ p, s.traceTbl.Occupied p → s.traceTbl.key p ≠ keyOf x)
    (hadd : addRecord s x.1 x.2 = some (s', ret)) :
    Counted s' avail ∧ Counts s s' x ret ∧ Passes s s' x := by
  have hi := hc.inv
  obtain ⟨free, htbl⟩ := hi.table
  obtain ⟨r, hr, heq⟩ := addRecord_eq_insert hi hno
  rw [heq] at hadd
  obtain ⟨t, ht, hadd⟩ := Option.bind_eq_some_iff.mp hadd
  have hloc := TraceData.location_of_write ht
  obtain ⟨q, hq, hs'⟩ := Option.map_eq_some_iff.mp hadd
  obtain ⟨free', h', n, hcall, hh, -, htbl', hout⟩ :=
    addKey_cases htbl (hi.length_keyOf x) (some idx)
  rw [hq, Option.some.injEq] at hcall
  subst hcall
  obtain ⟨rfl, hret⟩ := Prod.mk.inj hs'
  have hbefore := total_eq hi.ring
  have hafter : ∀ d, DumpState.total { s with
      traceDataRing := r, traceData := d, traceTbl := h' }
        = h'.boundKeys.length + avail.length := fun d => total_eq hr
  have hcount := htbl.length_boundKeys
  have hentries := congrArg UInt32.toNat hc.entries
  have hfew := hc.few
  rw [List.length_cons] at hbefore hfew
  rw [show (16384 : UInt32).toNat = 16384 from rfl] at hentries
  have hunbound : ∀ d, ¬ s.traceTbl.Binds (keyOf x) d := by
    intro d hb
    obtain ⟨p, hp, hk, -⟩ := hb
    exact hno p hp hk
  cases hout with
  | noSlot =>
      -- more slots than indices
      rw [List.length_nil] at hcount
      omega
  | update hp hk => exact absurd hk (hno _ hp)
  | refuse _ hwalk _ hb =>
      have hkeep := length_boundKeys_keep htbl.core htbl'.core hb
      obtain rfl : -ENOSPC = ret := hret
      have hplace := htbl.core.walkFails_iff.mp hwalk
      have hpos := boundKeys_pos_of_noPlace htbl hplace
      rw [← hkeep] at hpos
      refine ⟨⟨hi.lose ⟨_, htbl'⟩ hh hr hb, (header_entries hh).trans hc.entries, ?_,
        .inr hpos⟩, .inr ⟨not_accepts hi hno hplace, by decide, not_unchanged hi hr, ?_⟩,
        ⟨rfl, hkeep.ge, .inl hloc⟩⟩
      · show h'.boundKeys.length + _ ≤ _
        omega
      · rw [hafter]
        omega
  | @insert _ f _ _ hpos hb =>
      have hmore := length_boundKeys_add htbl.core htbl'.core hunbound hb
      have hnonneg : 0 ≤ ((f.toNat : Int) - 1) := by omega
      rw [if_pos hnonneg] at hret hq
      obtain rfl : 0 = ret := hret
      refine ⟨⟨hi.insert ⟨_, htbl'⟩ hh hr hb, (header_entries hh).trans hc.entries, ?_,
        .inr ?_⟩,
        .inl ⟨.inr (.inr fun hplace => ?_), ?_, fun hneg => absurd hneg (by decide)⟩,
        ⟨rfl, ?_, .inl hloc⟩⟩
      · show h'.boundKeys.length + _ ≤ _
        omega
      · show 0 < h'.boundKeys.length
        omega
      · obtain ⟨h'', hrefused⟩ := addKey_refused htbl (hi.length_keyOf x) (some idx) hno
          (List.cons_ne_nil _ _) (htbl.core.walkFails_iff.mpr hplace)
        rw [hq, Option.some.injEq] at hrefused
        exact absurd (Prod.mk.inj hrefused).2 (by decide)
      · rw [hafter]
        omega
      · show s.traceTbl.boundKeys.length ≤ h'.boundKeys.length
        omega

/-- Every call that stays inside the arrays. -/
theorem addRecord_counts {ret : Int} (hc : Counted s avail)
    (hadd : addRecord s x.1 x.2 = some (s', ret)) :
    (∃ avail', Counted s' avail') ∧ Counts s s' x ret ∧ Passes s s' x := by
  have hi := hc.inv
  by_cases hp : ∃ p, s.traceTbl.Occupied p ∧ s.traceTbl.key p = keyOf x
  · -- the key is there, and its trace is written
    obtain ⟨p, hp, hk⟩ := hp
    obtain ⟨idx, hbinds, heq⟩ := addRecord_eq_update hi hp hk
    rw [heq] at hadd
    obtain ⟨t, ht, hs'⟩ := Option.map_eq_some_iff.mp hadd
    obtain ⟨rfl, rfl⟩ := Prod.mk.inj hs'
    exact ⟨⟨avail, { hi with }, hc.entries, hc.few, hc.started⟩,
      .inl ⟨.inl ⟨_, hbinds⟩, rfl, fun hneg => absurd hneg (by decide)⟩,
      ⟨rfl, Nat.le_refl _, .inl (TraceData.location_of_write ht)⟩⟩
  have hno : ∀ p, s.traceTbl.Occupied p → s.traceTbl.key p ≠ keyOf x :=
    fun p hp' hk => hp ⟨p, hp', hk⟩
  cases avail with
  | nil =>
      obtain ⟨r, hr, heq⟩ := addRecord_eq_refuse hi hno
      rw [heq] at hadd
      cases hadd
      have hnil : s.traceDataRing.contents = [] := hi.ring.contents_eq_nil.mpr rfl
      have hpos := hc.started.resolve_left (by simp)
      refine ⟨⟨[], { hi with ring := hr }, hc.entries, hc.few, hc.started⟩,
        .inl ⟨.inr (.inl hnil), ?_, fun _ => ⟨⟨fun idx => ?_, fun _ _ => Iff.rfl,
          fun _ _ _ => rfl⟩, hnil⟩⟩, ⟨rfl, Nat.le_refl _, .inr hpos⟩⟩
      · rw [total_eq hi.ring]
        exact total_eq hr
      · rw [available_iff hi.ring]
        exact available_iff hr
  | cons idx avail =>
      obtain ⟨hc', hcounts⟩ := addRecord_counts_new hc hno hadd
      exact ⟨⟨avail, hc'⟩, hcounts⟩

-- =============================================================== whole runs

/-- A turn of the reading loop, without what the call returned. -/
def readStep (s : DumpState) (x : RecordFmt × UInt32) : Option DumpState :=
  (readOne s x).map (·.1)

/-- One turn; the largest location seen counts for nothing. -/
theorem readOne_counts {ret : Int} (hc : Counted s avail)
    (hread : readOne s x = some (s', ret)) :
    (∃ avail', Counted s' avail') ∧ s'.total ≤ s.total
      ∧ (Accepts s x ↔ s'.total = s.total) ∧ (0 ≤ ret → s'.total = s.total) := by
  obtain ⟨hc', hcounts, -⟩ := addRecord_counts (s := { s with
    macLoc := if x.1.location > s.macLoc then x.1.location else s.macLoc })
    (hc.setMacLoc _) hread
  refine ⟨hc', ?_⟩
  rcases hcounts with ⟨hacc, hsame, -⟩ | ⟨hnot, hneg, -, hless⟩
  · have hsame : s'.total = s.total := hsame
    exact ⟨hsame.le, iff_of_true hacc hsame, fun _ => hsame⟩
  · have hless : s'.total + 1 = s.total := hless
    exact ⟨by omega, iff_of_false hnot (by omega), fun hret => by omega⟩

/-- The count never grows, and is kept exactly by the runs in which the table
accepts every record; a run without a failed call is one. -/
theorem trace_counts {xs : List (RecordFmt × UInt32)} {rets : List Int}
    (hc : Counted s₀ avail) (htrace : Lts.trace readOne s₀ xs = some (s, rets)) :
    (∃ avail', Counted s avail') ∧ s.total ≤ s₀.total
      ∧ (Lts.AllSteps readStep Accepts s₀ xs ↔ s.total = s₀.total)
      ∧ ((∀ n ∈ rets, 0 ≤ n) → s.total = s₀.total) := by
  induction xs generalizing s₀ avail rets with
  | nil =>
      cases htrace
      exact ⟨⟨avail, hc⟩, Nat.le_refl _, iff_of_true trivial rfl, fun _ => rfl⟩
  | cons x xs ih =>
      obtain ⟨s₁, ret, rets', hread, hrest, rfl⟩ := Lts.trace_cons_eq_some.mp htrace
      obtain ⟨⟨avail₁, hc₁⟩, hle₁, hiff₁, hret₁⟩ := readOne_counts hc hread
      obtain ⟨hc₂, hle₂, hiff₂, hret₂⟩ := ih hc₁ hrest
      have hstep : readStep s₀ x = some s₁ := by rw [readStep, hread]; rfl
      refine ⟨hc₂, hle₂.trans hle₁, ?_, fun hrets => ?_⟩
      constructor
      · intro hall
        have hfirst := hiff₁.mp hall.1
        have hlater := hiff₂.mp (hall.2 s₁ hstep)
        exact hlater.trans hfirst
      · intro hsame
        refine ⟨hiff₁.mpr (by omega), fun s₁' hs₁' => ?_⟩
        rw [hstep, Option.some.injEq] at hs₁'
        subst hs₁'
        exact hiff₂.mpr (by omega)
      · have hfirst := hret₁ (hrets ret List.mem_cons_self)
        have hlater := hret₂ fun n hn => hrets n (List.mem_cons_of_mem _ hn)
        exact hlater.trans hfirst

section Init

variable {mmapOk : UInt32 → Bool} {env env' : CreateEnv}

theorem init_counted (hinit : initTraceTbl mmapOk env env' = some (.ok s₀)) :
    Counted s₀ freshIndices ∧ s₀.total = 16383 := by
  obtain ⟨ht, -, hnone⟩ := init_table hinit
  have hlen : s₀.traceTbl.boundKeys.length = 0 := by rw [hnone]; rfl
  have hfresh := length_freshIndices
  refine ⟨⟨ht.inv, ht.entries, by omega, .inl hfresh⟩, ?_⟩
  rw [total_eq ht.inv.ring]
  omega

/-- When a failed `__add_record` leaves the state as it was. In every state
reached by reading records, a call does so, if it fails, exactly when the
table accepts the record: its key is there, or no index is free, or its
primary bucket is not full or the path from it not blocked. And the traces and
free indices are 16383 together after a run exactly when the table has accepted
every record of it. -/
theorem failed_keeps_iff (hinit : initTraceTbl mmapOk env env' = some (.ok s₀))
    {xs : List (RecordFmt × UInt32)} {rets : List Int}
    (htrace : Lts.trace readOne s₀ xs = some (s, rets)) :
    (∀ x s' ret, addRecord s x.1 x.2 = some (s', ret) →
        ((ret < 0 → Unchanged s s') ↔ Accepts s x))
      ∧ (Lts.AllSteps readStep Accepts s₀ xs ↔ s.total = 16383) := by
  obtain ⟨hc₀, htotal⟩ := init_counted hinit
  obtain ⟨⟨avail, hc⟩, -, hiff, -⟩ := trace_counts hc₀ htrace
  refine ⟨fun x s' ret hadd => ?_, htotal ▸ hiff⟩
  rcases (addRecord_counts hc hadd).2.1 with ⟨hacc, -, hkeep⟩ | ⟨hnot, hneg, hlost, -⟩
  · exact iff_of_true (fun hneg => (hkeep hneg).1) hacc
  · exact iff_of_false (fun h => hlost (h hneg)) hnot

/-- The record of a probe, with zeros in the gap of its call. -/
def probeRecord (sender : UInt32) (idx : UInt64) : RecordFmt × UInt32 :=
  ({ tid := 0, location := 0, probeSender := sender, probeIdx := idx
     timestamp := .zero }, 0)

/-- Four probes whose keys have `oneBucketHash`. -/
def fourProbes : List (RecordFmt × UInt32) :=
  [probeRecord 0 2950082706, probeRecord 1 3874147765, probeRecord 2 1034832604,
    probeRecord 3 1955739643]

/-- A fifth one. -/
def fifthProbe : RecordFmt × UInt32 := probeRecord 4 2395681535

theorem traceHash_fiveProbes :
    ∀ y ∈ fourProbes ++ [fifthProbe], traceHash (keyOf y) = oneBucketHash := by
  decide +kernel

/-- The table accepts all four; what a call for the fifth probe does, if it fails,
is decided by the table. -/
theorem failed_keeps_iff_fourProbes :
    ∃ s₀ s, initTraceTbl (fun _ => true) okEnv okEnv = some (.ok s₀)
      ∧ Lts.trace readOne s₀ fourProbes = some (s, [0, 0, 0, 0])
      ∧ Lts.AllSteps readStep Accepts s₀ fourProbes
      ∧ ∀ s' ret, addRecord s fifthProbe.1 fifthProbe.2 = some (s', ret) →
        ((ret < 0 → Unchanged s s') ↔ Accepts s fifthProbe) := by
  obtain ⟨s₀, hinit⟩ := init_returns
  have hloc : ∀ y ∈ fourProbes, y.1.location.toNat < locMax := by decide
  obtain ⟨s, htrace⟩ := trace_fits_init hinit hloc (by decide) (by decide)
    fun b => (List.length_filter_le _ _).trans (by decide)
  obtain ⟨hc₀, htotal₀⟩ := init_counted hinit
  obtain ⟨-, -, -, hrets⟩ := trace_counts hc₀ htrace
  have htotal : s.total = 16383 := (hrets (by decide)).trans htotal₀
  obtain ⟨hone, hall⟩ := failed_keeps_iff hinit htrace
  exact ⟨s₀, s, hinit, htrace, hall.mpr htotal, hone fifthProbe⟩

/-- A record of the first location does not move the largest one. -/
theorem readOne_zero (hzero : x.1.location = 0) :
    readOne s x = addRecord s x.1 x.2 := by
  unfold readOne
  rw [hzero, if_neg (by simp)]

/-- The call for the fifth probe fails, with indices left, and loses one. -/
theorem failed_loses_index :
    ∃ s₀ s s' ret, initTraceTbl (fun _ => true) okEnv okEnv = some (.ok s₀)
      ∧ Lts.trace readOne s₀ fourProbes = some (s, [0, 0, 0, 0])
      ∧ addRecord s fifthProbe.1 fifthProbe.2 = some (s', ret) ∧ ret < 0
      ∧ ¬ Unchanged s s' ∧ s.total = 16383 ∧ s'.total = 16382 := by
  obtain ⟨s₀, hinit⟩ := init_returns
  have hloc : ∀ y ∈ fourProbes, y.1.location.toNat < locMax := by decide
  have hloc' : ∀ y ∈ fourProbes ++ [fifthProbe], y.1.location.toNat < locMax := by
    decide
  have hkeys : ((fourProbes ++ [fifthProbe]).map keyOf).Nodup := by decide
  have hhash : ∀ y ∈ fourProbes, traceHash (keyOf y) = oneBucketHash :=
    fun y hy => traceHash_fiveProbes y (List.mem_append_left _ hy)
  obtain ⟨s, htrace⟩ := trace_fits_init hinit hloc (by decide) (by decide)
    fun b => (List.length_filter_le _ _).trans (by decide)
  obtain ⟨⟨avail, ht⟩, hs⟩ := trace_init hinit hloc htrace
  obtain ⟨s', ret, avail', m', hadd, hstep, -⟩ :=
    addRecord_spec (x := fifthProbe) ht.inv hs (by decide)
  have hread : readOne s fifthProbe = some (s', ret) := by
    rw [readOne_zero rfl]
    exact hadd
  have hall : Lts.trace readOne s₀ (fourProbes ++ [fifthProbe])
      = some (s', [0, 0, 0, 0, ret]) := by
    rw [Lts.trace_append, htrace, Option.bind_some, Lts.trace_cons_of_some hread]
    rfl
  have hneg : ret < 0 := by
    cases hstep with
    | refuse hneg => exact hneg
    | store =>
        -- five keys in one bucket
        exfalso
        obtain ⟨⟨_, ht'⟩, hs'⟩ := trace_init hinit hloc' hall
        have hfew := trace_oneBucket hinit hloc' traceHash_fiveProbes hall
        have hsub : (fourProbes ++ [fifthProbe]).map keyOf ⊆ s'.traceTbl.boundKeys := by
          intro k hk
          obtain ⟨y, hy, rfl⟩ := List.mem_map.mp hk
          have hstored : y ∈ succeeded (fourProbes ++ [fifthProbe]) [0, 0, 0, 0, 0] :=
            (succeeded_replicate (fourProbes ++ [fifthProbe])).symm ▸ hy
          obtain ⟨idx, hb⟩ := hs'.binds hstored
          obtain ⟨free, htbl⟩ := ht'.inv.table
          exact htbl.core.mem_boundKeys.mpr ⟨_, hb⟩
        have hle := (List.subperm_of_subset hkeys hsub).length_le
        rw [List.length_map, show (fourProbes ++ [fifthProbe]).length = 5 from rfl] at hle
        omega
  obtain ⟨hc₀, htotal₀⟩ := init_counted hinit
  obtain ⟨⟨avail₁, hc⟩, -, -, hrets⟩ := trace_counts hc₀ htrace
  have htotal : s.total = 16383 := (hrets (by decide)).trans htotal₀
  rcases (addRecord_counts hc hadd).2.1 with ⟨-, -, hkeep⟩ | ⟨-, -, hlost, hless⟩
  · -- there are indices left
    have hnil := (hkeep hneg).2
    have hfew := trace_oneBucket hinit hloc hhash htrace
    rw [DumpState.total, hnil, List.length_nil] at htotal
    omega
  · exact ⟨s₀, s, s', ret, hinit, htrace, hadd, hneg, hlost, htotal, by omega⟩

end Init

end PktSender.Dump
