/-
Which records the dump command never refuses.

A block is 4096 indices of one sender that agree from bit 12 on. The hash puts
the ids of a block into different buckets (`crc32cU64_low_inj`), so with four
blocks no bucket is the primary one of more than four keys. A new key then
finds room at home and pushes nobody away (`addKey_home`). So all records are
stored, up to the last index of the ring (`dump_never_refuses`); with the
indices of a sender in order that is 16383 traces.
-/
import PktSender.Cuckoo.Proofs.Home
import PktSender.Dump.Proofs.Leak
import PktSender.Hash.Proofs.Spread

namespace PktSender.Dump

open PktSender.Hash PktSender.Ring PktSender.Cuckoo

variable {s s' s₀ : DumpState} {avail : List UInt32} {ks : List (List UInt8)}
  {x : RecordFmt × UInt32} {gap : UInt32}

-- ============================================================== the blocks

/-- The block of an id. -/
def blockOf (id : UInt32 × UInt64) : UInt32 × UInt64 := (id.1, id.2 >>> 12)

/-- A word is its two halves. -/
theorem word_ext {w w' : UInt64} (hlo : w.toUInt32 = w'.toUInt32)
    (hhi : (w >>> 32).toUInt32 = (w' >>> 32).toUInt32) : w = w' := by
  have hlow := congrArg UInt32.toNat hlo
  have hhigh := congrArg UInt32.toNat hhi
  have := w.toNat_lt
  have := w'.toNat_lt
  rw [UInt64.toNat_toUInt32, UInt64.toNat_toUInt32] at hlow hhigh
  rw [UInt64.toNat_shiftRight, UInt64.toNat_shiftRight, Nat.shiftRight_eq_div_pow,
    Nat.shiftRight_eq_div_pow,
    show 2 ^ ((32 : UInt64).toNat % 64) = 4294967296 from rfl] at hhigh
  apply UInt64.toNat_inj.mp
  omega

/-- Ids of one block have different buckets. -/
theorem id_eq_of_bucket {r r' : RecordFmt} (hblock : blockOf r.id = blockOf r'.id)
    (hbucket : traceHash (keyOf (r, gap)) &&& 4095 = traceHash (keyOf (r', gap)) &&& 4095) :
    r.id = r'.id := by
  obtain ⟨hport, hidx⟩ := Prod.mk.inj hblock
  have hport : r.probeSender = r'.probeSender := hport
  obtain ⟨w, hlo, hhi, hhash⟩ := traceHash_keyOf r gap
  obtain ⟨w', hlo', hhi', hhash'⟩ := traceHash_keyOf r' gap
  obtain rfl : w = w' := word_ext (by rw [hlo, hlo', hport]) (by rw [hhi, hhi'])
  rw [hhash, hhash'] at hbucket
  exact Prod.ext hport (crc32cU64_low_inj hidx hbucket)

/-- The keys of some records, each once. -/
def keysOf (gap : UInt32) (recs : List RecordFmt) : List (List UInt8) :=
  (recs.map fun r => keyOf (r, gap)).dedup

theorem mem_keysOf {recs : List RecordFmt} {k : List UInt8} :
    k ∈ keysOf gap recs ↔ ∃ r ∈ recs, keyOf (r, gap) = k := by
  rw [keysOf, List.mem_dedup, List.mem_map]

theorem nodup_keysOf (gap : UInt32) (recs : List RecordFmt) : (keysOf gap recs).Nodup :=
  List.nodup_dedup _

/-- There are no more keys than ids. -/
theorem length_keysOf_le (gap : UInt32) (recs : List RecordFmt) :
    (keysOf gap recs).length ≤ (recs.map RecordFmt.id).dedup.length := by
  have hnodup : ((keysOf gap recs).map idOfKey).Nodup := by
    refine List.Nodup.map_on (fun k hk k' hk' heq => ?_) (nodup_keysOf gap recs)
    obtain ⟨r, -, rfl⟩ := mem_keysOf.mp hk
    obtain ⟨r', -, rfl⟩ := mem_keysOf.mp hk'
    rw [idOfKey_keyOf, idOfKey_keyOf] at heq
    exact keyOf_eq_iff.mpr heq
  rw [← List.length_map idOfKey]
  refine (List.subperm_of_subset hnodup fun id hid => ?_).length_le
  obtain ⟨k, hk, rfl⟩ := List.mem_map.mp hid
  obtain ⟨r, hr, rfl⟩ := mem_keysOf.mp hk
  rw [idOfKey_keyOf]
  exact List.mem_dedup.mpr (List.mem_map_of_mem hr)

/-- No bucket is the primary one of more keys than there are blocks. -/
theorem length_bucket_le {recs : List RecordFmt} {blocks : List (UInt32 × UInt64)}
    (hblocks : ∀ r ∈ recs, blockOf r.id ∈ blocks) (b : UInt32) :
    ((keysOf gap recs).filter fun k => traceHash k &&& 4095 = b).length ≤ blocks.length := by
  have hnodup : (((keysOf gap recs).filter fun k => traceHash k &&& 4095 = b).map
      fun k => blockOf (idOfKey k)).Nodup := by
    refine List.Nodup.map_on (fun k hk k' hk' heq => ?_) ((nodup_keysOf gap recs).filter _)
    obtain ⟨hk, hb⟩ := List.mem_filter.mp hk
    obtain ⟨hk', hb'⟩ := List.mem_filter.mp hk'
    obtain ⟨r, -, rfl⟩ := mem_keysOf.mp hk
    obtain ⟨r', -, rfl⟩ := mem_keysOf.mp hk'
    rw [idOfKey_keyOf, idOfKey_keyOf] at heq
    exact keyOf_eq_iff.mpr (id_eq_of_bucket heq
      ((of_decide_eq_true hb).trans (of_decide_eq_true hb').symm))
  rw [← List.length_map fun k => blockOf (idOfKey k)]
  refine (List.subperm_of_subset hnodup fun block hblock => ?_).length_le
  obtain ⟨k, hk, rfl⟩ := List.mem_map.mp hblock
  obtain ⟨r, hr, rfl⟩ := mem_keysOf.mp (List.mem_filter.mp hk).1
  show blockOf (idOfKey (keyOf (r, gap))) ∈ blocks
  rw [idOfKey_keyOf]
  exact hblocks r hr

-- ============================================================ the invariant

/-- Nothing was refused and nobody pushed away, and the keys are among
`ks`. -/
structure Roomy (ks : List (List UInt8)) (s : DumpState) : Prop where
  table : ∃ avail, DumpTable s avail
  traces : ∃ m, Shows s m
  counted : ∃ avail, Counted s avail
  total : s.total = 16383
  home : s.traceTbl.AtHome
  keys : ∀ k ∈ s.traceTbl.boundKeys, k ∈ ks

/-- A call that returned 0 keeps it, if nobody was pushed away. -/
theorem Roomy.after (hr : Roomy ks s) (hloc : x.1.location.toNat < locMax) (hx : keyOf x ∈ ks)
    (hread : readOne s x = some (s', 0)) (hhome : s'.traceTbl.AtHome) : Roomy ks s' := by
  obtain ⟨avail, ht⟩ := hr.table
  obtain ⟨m, hs⟩ := hr.traces
  obtain ⟨avail', hc⟩ := hr.counted
  obtain ⟨avail₁, m', ht', hs', -, hbound⟩ := ht.readOne hs hloc hread
  obtain ⟨hc', -, -, htotal⟩ := readOne_counts hc hread
  refine ⟨⟨avail₁, ht'⟩, ⟨m', hs'⟩, hc', (htotal (Int.le_refl 0)).trans hr.total, hhome,
    fun k hk => ?_⟩
  rcases hbound k hk with hold | rfl
  · exact hr.keys k hold
  · exact hx

/-- With few keys for each bucket and no more keys than indices, a record is
stored. -/
theorem Roomy.readOne (hr : Roomy ks s) (hlen : ks.length ≤ 16383)
    (hfew : ∀ b, (ks.filter fun k => traceHash k &&& 4095 = b).length ≤ 4)
    (hloc : x.1.location.toNat < locMax) (hx : keyOf x ∈ ks) :
    ∃ s', Dump.readOne s x = some (s', 0) ∧ Roomy ks s' := by
  obtain ⟨avail, ht⟩ := hr.table
  obtain ⟨m, hs⟩ := hr.traces
  obtain ⟨free, htbl⟩ := ht.inv.table
  by_cases hp : ∃ p, s.traceTbl.Occupied p ∧ s.traceTbl.key p = keyOf x
  · obtain ⟨p, hp, hk⟩ := hp
    obtain ⟨s', hread, -, -, htable⟩ := addRecord_present (s := { s with
      macLoc := if x.1.location > s.macLoc then x.1.location else s.macLoc })
      { ht.inv with } hs hloc hp hk
    exact ⟨s', hread, hr.after hloc hx hread (by rw [htable]; exact hr.home)⟩
  have hno : ∀ p, s.traceTbl.Occupied p → s.traceTbl.key p ≠ keyOf x :=
    fun p hp' hk => hp ⟨p, hp', hk⟩
  have hnew : keyOf x ∉ s.traceTbl.boundKeys := by
    intro hmem
    obtain ⟨d, p, hp', hk, -⟩ := htbl.core.mem_boundKeys.mp hmem
    exact hno p hp' hk
  -- the keys of the table and the new one are among `ks`
  have hall : (keyOf x :: s.traceTbl.boundKeys).Subperm ks :=
    List.subperm_of_subset (List.nodup_cons.mpr ⟨hnew, htbl.core.nodup_boundKeys⟩)
      (List.cons_subset.mpr ⟨hx, hr.keys⟩)
  have hbound := hall.length_le
  rw [List.length_cons] at hbound
  have htotal := hr.total
  rw [total_eq ht.inv.ring] at htotal
  obtain ⟨idx, avail, rfl⟩ := List.exists_cons_of_ne_nil
    (List.ne_nil_of_length_pos (l := avail) (by omega))
  have hfree : free ≠ [] := by
    intro heq
    have hcount := htbl.length_boundKeys
    rw [heq, ht.entries, List.length_nil, show (16384 : UInt32).toNat = 16384 from rfl] at hcount
    omega
  have hroom : (s.traceTbl.boundKeys.filter
      fun k => s.traceTbl.homeOf k = s.traceTbl.homeOf (keyOf x)).length < 4 := by
    have hle := (hall.filter fun k =>
      decide (s.traceTbl.homeOf k = s.traceTbl.homeOf (keyOf x))).length_le
    rw [List.filter_cons, if_pos (decide_eq_true rfl), List.length_cons] at hle
    have hfour := hfew (traceHash (keyOf x) &&& 4095)
    simp only [Tbl.homeOf, ht.hash_eq, ht.mask_eq] at hle ⊢
    omega
  obtain ⟨h', hadd, hhome⟩ := addKey_home htbl hr.home (some idx) hno hfree hroom
  obtain ⟨r, -, hread⟩ := addRecord_cons (s := { s with
    macLoc := if x.1.location > s.macLoc then x.1.location else s.macLoc })
    (x := x) { ht.inv with } hloc hno
  rw [show cuckoohashAddKeyData _ (keyOf x) (some idx) = some (h', 0) from hadd] at hread
  exact ⟨_, hread, hr.after hloc hx hread hhome⟩

/-- Every record of a run is. -/
theorem Roomy.trace {xs : List (RecordFmt × UInt32)} (hr : Roomy ks s) (hlen : ks.length ≤ 16383)
    (hfew : ∀ b, (ks.filter fun k => traceHash k &&& 4095 = b).length ≤ 4)
    (hloc : ∀ x ∈ xs, x.1.location.toNat < locMax) (hxs : ∀ x ∈ xs, keyOf x ∈ ks) :
    ∃ s', Lts.trace Dump.readOne s xs = some (s', List.replicate xs.length 0) := by
  induction xs generalizing s with
  | nil => exact ⟨s, rfl⟩
  | cons x xs ih =>
      obtain ⟨s₁, hread, hr₁⟩ := hr.readOne hlen hfew
        (hloc x List.mem_cons_self) (hxs x List.mem_cons_self)
      obtain ⟨s', htrace⟩ := ih hr₁ (fun y hy => hloc y (List.mem_cons_of_mem _ hy))
        fun y hy => hxs y (List.mem_cons_of_mem _ hy)
      exact ⟨s', Lts.trace_cons_eq_some.mpr ⟨s₁, _, _, hread, htrace, rfl⟩⟩

-- =============================================================== whole runs

section Runs

variable {mmapOk : UInt32 → Bool} {env env' : CreateEnv}

/-- At the start the table is empty. -/
theorem init_roomy (hinit : initTraceTbl mmapOk env env' = some (.ok s₀))
    (ks : List (List UInt8)) : Roomy ks s₀ := by
  obtain ⟨ht, hs, hnone⟩ := init_table hinit
  obtain ⟨hc, htotal⟩ := init_counted hinit
  obtain ⟨free, htbl⟩ := ht.inv.table
  refine ⟨⟨_, ht⟩, ⟨_, hs⟩, ⟨_, hc⟩, htotal, fun p hp => ?_, fun k hk => ?_⟩
  · have hmem := htbl.core.mem_boundKeys.mpr ⟨_, p, hp, rfl, rfl⟩
    rw [hnone] at hmem
    exact absurd hmem List.not_mem_nil
  · rw [hnone] at hk
    exact absurd hk List.not_mem_nil

/-- Records of at most four blocks with at most 16383 ids are all stored, in
any order and however often an id comes. The dump has one line for each id,
with the last record of each location. -/
theorem dump_never_refuses (hinit : initTraceTbl mmapOk env env' = some (.ok s₀))
    (gap : UInt32) {recs : List RecordFmt} (hloc : ∀ r ∈ recs, r.location.toNat < locMax)
    {blocks : List (UInt32 × UInt64)} (hfour : blocks.length ≤ 4)
    (hblocks : ∀ r ∈ recs, blockOf r.id ∈ blocks)
    (hids : (recs.map RecordFmt.id).dedup.length ≤ 16383) :
    ∃ s, Lts.trace readOne s₀ (recs.map (·, gap)) = some (s, List.replicate recs.length 0)
      ∧ ((dumpAllTraces s).map Row.id).Nodup
      ∧ (∀ id, id ∈ (dumpAllTraces s).map Row.id ↔ ∃ r ∈ recs, r.id = id)
      ∧ ∀ row ∈ dumpAllTraces s, row.cells = lastCell recs row.id := by
  have hlocx : ∀ x ∈ recs.map (·, gap), x.1.location.toNat < locMax := by
    intro x hx
    obtain ⟨r, hr, rfl⟩ := List.mem_map.mp hx
    exact hloc r hr
  have hkeyed : KeyedById (recs.map (·, gap)) := by
    intro x hx y hy
    obtain ⟨r, -, rfl⟩ := List.mem_map.mp hx
    obtain ⟨r', -, rfl⟩ := List.mem_map.mp hy
    exact keyOf_eq_iff
  have hfst : (recs.map (·, gap)).map Prod.fst = recs := by
    rw [List.map_map]
    exact List.map_id _
  obtain ⟨s, htrace⟩ := (init_roomy hinit (keysOf gap recs)).trace
    ((length_keysOf_le gap recs).trans hids)
    (fun b => (length_bucket_le hblocks b).trans hfour) hlocx fun x hx => by
      obtain ⟨r, hr, rfl⟩ := List.mem_map.mp hx
      exact mem_keysOf.mpr ⟨r, hr, rfl⟩
  obtain ⟨⟨avail, ht⟩, hs⟩ := trace_init hinit hlocx htrace
  rw [succeeded_replicate] at hs
  have hdumps := dumps_grouped ht.inv hs hkeyed hlocx
  rw [hfst] at hdumps
  rw [List.length_map] at htrace
  refine ⟨s, htrace, nodup_ids_dumpAllTraces ht.inv hs hkeyed hlocx, fun id => ?_,
    fun row hrow => ((hdumps row.id row.cells).mp ⟨row, hrow, rfl, rfl⟩).2⟩
  rw [List.mem_map]
  constructor
  · intro hex
    obtain ⟨row, hrow, rfl⟩ := hex
    exact ((hdumps row.id row.cells).mp ⟨row, hrow, rfl, rfl⟩).1
  · intro hex
    obtain ⟨row, hrow, hid, -⟩ := (hdumps id _).mpr ⟨hex, rfl⟩
    exact ⟨row, hrow, hid⟩

/-- Two records of one id and one of the next block. -/
def twoBlocks : List RecordFmt :=
  [(probeRecord 3 4095).1, (probeRecord 3 4096).1, (probeRecord 3 4095).1]

theorem dump_never_refuses_twoBlocks :
    ∃ s₀ s, initTraceTbl (fun _ => true) okEnv okEnv = some (.ok s₀)
      ∧ Lts.trace readOne s₀ (twoBlocks.map (·, 0)) = some (s, [0, 0, 0])
      ∧ ∀ id, id ∈ (dumpAllTraces s).map Row.id ↔ ∃ r ∈ twoBlocks, r.id = id := by
  obtain ⟨s₀, hinit⟩ := init_returns
  have hloc : ∀ r ∈ twoBlocks, r.location.toNat < locMax := by decide
  have hfour : ([(3, 0), (3, 1)] : List (UInt32 × UInt64)).length ≤ 4 := by decide
  obtain ⟨s, htrace, -, hids, -⟩ :=
    dump_never_refuses hinit 0 hloc hfour (by decide) (by decide)
  exact ⟨s₀, s, hinit, htrace, hids⟩

end Runs

end PktSender.Dump
