/-
The four bytes of a trace id that nobody writes.

They are hashed and compared with the rest, so two calls for one id find the
same trace only when their gaps are equal. And since feeding a word to the
hash is a bijection, some gap gives the key of any record any hash
(`exists_gap`): gaps can send all records to one bucket, which has four
entries, or to different ones. So what is dumped does not depend on the gaps
exactly when there are at most four records, with different ids
(`groupedById_iff`).
-/
import PktSender.Dump.Proofs.Rows
import PktSender.Hash.Proofs.Crc

namespace PktSender.Dump

open LittleEndian PktSender.Hash PktSender.Ring PktSender.Cuckoo

variable {s s₀ : DumpState} {avail : List UInt32} {m : Traces}

-- ================================================================ the hash

/-- The hash of a key of the trace table. -/
def traceHash (key : List UInt8) : UInt32 :=
  hashCrc32c key sizeofTraceId cuckooHashInitVal

/-- A key is two words: the first holds the gap in its high half. -/
theorem traceHash_keyOf (r : RecordFmt) (gap : UInt32) :
    ∃ w : UInt64, w.toUInt32 = r.probeSender ∧ (w >>> 32).toUInt32 = gap
      ∧ traceHash (keyOf (r, gap))
          = crc32cU64 r.probeIdx (crc32cU64 w cuckooHashInitVal) := by
  have hport := r.probeSender.toNat_lt
  have hgap := gap.toNat_lt
  have hprobe : r.probeIdx.toNat < 256 ^ 8 := r.probeIdx.toNat_lt
  have hbytes : ofLeBytes (leBytes 4 r.probeSender.toNat ++ leBytes 4 gap.toNat)
      = r.probeSender.toNat + 2 ^ 32 * gap.toNat := by
    rw [ofLeBytes_append, leBytes_length, ofLeBytes_leBytes, ofLeBytes_leBytes,
      Nat.mod_eq_of_lt (by omega), Nat.mod_eq_of_lt (by omega)]
    rfl
  refine ⟨UInt64.ofNat (r.probeSender.toNat + 2 ^ 32 * gap.toNat), ?_, ?_, ?_⟩
  · apply UInt32.toNat_inj.mp
    rw [UInt64.toNat_toUInt32, UInt64.toNat_ofNat']
    omega
  · apply UInt32.toNat_inj.mp
    rw [UInt64.toNat_toUInt32, UInt64.toNat_shiftRight, UInt64.toNat_ofNat',
      Nat.shiftRight_eq_div_pow, show (32 : UInt64).toNat % 64 = 32 from rfl]
    omega
  · have hfirst : (keyOf (r, gap)).take 8
        = leBytes 4 r.probeSender.toNat ++ leBytes 4 gap.toNat :=
      List.take_left' (by simp)
    have hsecond : (keyOf (r, gap)).drop 8 = leBytes 8 r.probeIdx.toNat :=
      List.drop_left' (by simp)
    show hashTail (((keyOf (r, gap)).drop 8).drop 8) 7 (crc32cU64 (word64 ((keyOf (r, gap)).drop 8))
      (crc32cU64 (word64 (keyOf (r, gap))) cuckooHashInitVal)) = _
    unfold word64
    rw [hfirst, hsecond, hbytes, List.take_of_length_le (by simp),
      ofLeBytes_leBytes, Nat.mod_eq_of_lt hprobe, UInt64.ofNat_toNat]
    rfl

/-- Some gap gives the key of a record the hash wanted. -/
theorem exists_gap (r : RecordFmt) (v : UInt32) :
    ∃ gap, traceHash (keyOf (r, gap)) = v := by
  obtain ⟨mid, hmid⟩ := crc32cU64_init r.probeIdx v
  obtain ⟨gap, hgap⟩ := crc32cU64_high r.probeSender cuckooHashInitVal mid
  obtain ⟨w, hlo, hhi, hhash⟩ := traceHash_keyOf r gap
  exact ⟨gap, by rw [hhash, hgap w hlo hhi, hmid]⟩

/-- And for a list of records one hash each. -/
theorem exists_gaps (recs : List RecordFmt) (vs : List UInt32)
    (hlen : recs.length ≤ vs.length) :
    ∃ xs : List (RecordFmt × UInt32), xs.map Prod.fst = recs
      ∧ xs.map (fun x => traceHash (keyOf x)) = vs.take recs.length := by
  induction recs generalizing vs with
  | nil => exact ⟨[], rfl, rfl⟩
  | cons r recs ih =>
      cases vs with
      | nil => exact absurd hlen (Nat.not_succ_le_zero _)
      | cons v vs =>
          obtain ⟨xs, hfst, hhash⟩ := ih vs (Nat.le_of_succ_le_succ hlen)
          obtain ⟨gap, hgap⟩ := exists_gap r v
          refine ⟨(r, gap) :: xs, by rw [List.map_cons, hfst], ?_⟩
          rw [List.map_cons, hgap, hhash, List.length_cons, List.take_succ_cons]

-- ============================================================= the buckets

/-- The table of the dump command: 4096 buckets, 16384 slots. -/
structure DumpTable (s : DumpState) (avail : List UInt32) : Prop where
  inv : DumpInv s avail
  buckets : s.traceTbl.numBuckets = 4096
  entries : s.traceTbl.entries = 16384

/-- One of the two buckets of a key is `b`. -/
def traceBucketOf (b : UInt32) (key : List UInt8) : Bool :=
  b == traceHash key &&& 4095 || b == hashSecondary (traceHash key) &&& 4095

theorem DumpTable.hash_eq (ht : DumpTable s avail) (k : List UInt8) :
    hash s.traceTbl k = traceHash k := by
  unfold Cuckoo.hash traceHash
  rw [ht.inv.keyLen]

theorem DumpTable.mask_eq (ht : DumpTable s avail) :
    s.traceTbl.bucketBitmask = 4095 := by
  obtain ⟨free, htbl⟩ := ht.inv.table
  rw [htbl.core.shape.mask, ht.buckets]
  decide

theorem DumpTable.bucketOf_iff (ht : DumpTable s avail) {k : List UInt8}
    {b : UInt32} : s.traceTbl.BucketOf k b ↔ traceBucketOf b k = true := by
  unfold Tbl.BucketOf traceBucketOf
  rw [ht.hash_eq, ht.mask_eq, Bool.or_eq_true, beq_iff_eq, beq_iff_eq]

/-- A key of the table has a trace, and every trace a key. -/
theorem Shows.mem_boundKeys (hi : DumpInv s avail) (hs : Shows s m)
    {k : List UInt8} : k ∈ s.traceTbl.boundKeys ↔ ∃ c, m k = some c := by
  obtain ⟨free, htbl⟩ := hi.table
  rw [htbl.core.mem_boundKeys]
  constructor
  · intro hex
    obtain ⟨d, hb⟩ := hex
    obtain ⟨x, rfl, -⟩ := hi.own k d hb
    exact ⟨_, (hs k _).mpr ⟨x, hb, rfl⟩⟩
  · intro hex
    obtain ⟨c, hc⟩ := hex
    obtain ⟨x, hb, -⟩ := (hs k c).mp hc
    exact ⟨_, hb⟩

/-- A record with a new key is stored while no bucket is one of the two of
more than four keys and there are slots and indices for all. -/
theorem readOne_fits (ht : DumpTable s avail) {ks : List (List UInt8)}
    (hks : ∀ k ∈ s.traceTbl.boundKeys, k ∈ ks) {x : RecordFmt × UInt32}
    (hloc : x.1.location.toNat < locMax) (hnew : keyOf x ∉ ks)
    (hslots : ks.length < 16384) (havail : avail ≠ [])
    (hroom : ∀ b, ((ks ++ [keyOf x]).filter (traceBucketOf b)).length ≤ 4) :
    ∃ s', readOne s x = some (s', 0) := by
  obtain ⟨free, htbl⟩ := ht.inv.table
  obtain ⟨idx, avail, rfl⟩ := List.exists_cons_of_ne_nil havail
  have hno : ∀ p, s.traceTbl.Occupied p → s.traceTbl.key p ≠ keyOf x := by
    intro p hp hk
    exact hnew (hks _ (htbl.core.mem_boundKeys.mpr ⟨_, p, hp, hk, rfl⟩))
  have hsub : s.traceTbl.boundKeys.Subperm ks :=
    List.subperm_of_subset htbl.core.nodup_boundKeys hks
  have hfree : free ≠ [] := by
    intro heq
    subst heq
    have hcount := htbl.length_boundKeys
    have hle := hsub.length_le
    rw [ht.entries, List.length_nil] at hcount
    have : (16384 : UInt32).toNat = 16384 := rfl
    omega
  have hfull : ¬ s.traceTbl.buckets.Full
      (hash s.traceTbl (keyOf x) &&& s.traceTbl.bucketBitmask) := by
    intro hfull
    -- four keys of the table and the new one share the bucket
    have hfour := htbl.core.four_of_full hfull
    have hfilter : (s.traceTbl.boundKeys.filter fun k => s.traceTbl.BucketOf k
          (hash s.traceTbl (keyOf x) &&& s.traceTbl.bucketBitmask)).Subperm
        (ks.filter (traceBucketOf (traceHash (keyOf x) &&& 4095))) := by
      rw [ht.hash_eq, ht.mask_eq]
      apply List.subperm_of_subset (htbl.core.nodup_boundKeys.filter _)
      intro k hk
      obtain ⟨hk, hb⟩ := List.mem_filter.mp hk
      exact List.mem_filter.mpr
        ⟨hks k hk, ht.bucketOf_iff.mp (of_decide_eq_true hb)⟩
    have hself : traceBucketOf (traceHash (keyOf x) &&& 4095) (keyOf x) = true := by
      rw [traceBucketOf, beq_self_eq_true, Bool.true_or]
    have hle := hroom (traceHash (keyOf x) &&& 4095)
    rw [List.filter_append, List.length_append, List.filter_cons_of_pos hself,
      List.length_cons] at hle
    have := hfilter.length_le
    omega
  obtain ⟨h', hadd⟩ := addKey_fits htbl (some idx) hno hfree hfull
  obtain ⟨r, -, hread⟩ := addRecord_cons (s := { s with
    macLoc := if x.1.location > s.macLoc then x.1.location else s.macLoc })
    (x := x) { ht.inv with } hloc hno
  rw [show cuckoohashAddKeyData _ (keyOf x) (some idx) = some (h', 0) from hadd]
    at hread
  exact ⟨_, hread⟩

/-- One call keeps the table's sizes, and binds no key but its own. -/
theorem DumpTable.readOne (ht : DumpTable s avail) (hs : Shows s m)
    {x : RecordFmt × UInt32} (hloc : x.1.location.toNat < locMax)
    {s' : DumpState} {ret : Int} (hread : Dump.readOne s x = some (s', ret)) :
    ∃ avail' m', DumpTable s' avail' ∧ Shows s' m'
      ∧ avail.length ≤ avail'.length + 1
      ∧ ∀ k ∈ s'.traceTbl.boundKeys, k ∈ s.traceTbl.boundKeys ∨ k = keyOf x := by
  obtain ⟨s'', ret', avail', m', hread', hstep, hi', hs', hh, hlen⟩ :=
    readOne_spec ht.inv hs hloc
  rw [hread'] at hread
  cases hread
  refine ⟨avail', m', ⟨hi', (header_numBuckets hh).trans ht.buckets,
    (header_entries hh).trans ht.entries⟩, hs', hlen, fun k hk => ?_⟩
  obtain ⟨c, hc⟩ := (hs'.mem_boundKeys hi').mp hk
  rw [hs.mem_boundKeys ht.inv]
  cases hstep with
  | store =>
      by_cases hkx : k = keyOf x
      · exact .inr hkx
      · rw [LastWrite.write, Function.update_of_ne hkx] at hc
        exact .inl ⟨c, hc⟩
  | refuse => exact .inl ⟨c, hc⟩

/-- Records with different new keys are all stored. -/
theorem trace_fits {xs : List (RecordFmt × UInt32)} {ks : List (List UInt8)}
    (ht : DumpTable s avail) (hs : Shows s m)
    (hks : ∀ k ∈ s.traceTbl.boundKeys, k ∈ ks)
    (hloc : ∀ x ∈ xs, x.1.location.toNat < locMax)
    (hnodup : (ks ++ xs.map keyOf).Nodup)
    (hslots : (ks ++ xs.map keyOf).length ≤ 16384)
    (havail : xs.length ≤ avail.length)
    (hroom : ∀ b, ((ks ++ xs.map keyOf).filter (traceBucketOf b)).length ≤ 4) :
    ∃ s', Lts.trace readOne s xs = some (s', List.replicate xs.length 0) := by
  induction xs generalizing s avail m ks with
  | nil => exact ⟨s, rfl⟩
  | cons x xs ih =>
      have hsplit : ks ++ (x :: xs).map keyOf
          = (ks ++ [keyOf x]) ++ xs.map keyOf := by
        rw [List.map_cons, List.append_assoc, List.singleton_append]
      rw [hsplit] at hnodup hslots hroom
      have hlx := hloc x List.mem_cons_self
      obtain ⟨hnodup', -, -⟩ := List.nodup_append.mp hnodup
      have hnew : keyOf x ∉ ks := by
        obtain ⟨-, -, hne⟩ := List.nodup_append.mp hnodup'
        exact fun hmem => hne _ hmem _ (List.mem_singleton.mpr rfl) rfl
      rw [List.length_append, List.length_append, List.length_singleton] at hslots
      rw [List.length_cons] at havail
      obtain ⟨s₁, hread⟩ := readOne_fits ht hks hlx hnew (by omega)
        (List.ne_nil_of_length_pos (by omega)) fun b => by
          have hle := hroom b
          rw [List.filter_append, List.length_append] at hle
          omega
      obtain ⟨avail', m', ht', hs', hlen, hbound⟩ := ht.readOne hs hlx hread
      obtain ⟨s', htrace⟩ := ih ht' hs'
        (fun k hk => by
          rw [List.mem_append, List.mem_singleton]
          exact (hbound k hk).imp_left (hks k))
        (fun y hy => hloc y (List.mem_cons_of_mem _ hy)) hnodup
        (by rw [List.length_append, List.length_append, List.length_singleton]
            exact hslots)
        (by omega) hroom
      exact ⟨s', Lts.trace_cons_eq_some.mpr ⟨s₁, _, _, hread, htrace, rfl⟩⟩

/-- The secondary bucket of this hash is the primary one. -/
def oneBucketHash : UInt32 := 0xFFF000

/-- Keys that all have this hash fill one bucket. -/
theorem few_of_oneBucket (ht : DumpTable s avail)
    (hhash : ∀ k ∈ s.traceTbl.boundKeys, traceHash k = oneBucketHash) :
    s.traceTbl.boundKeys.length ≤ 4 := by
  obtain ⟨free, htbl⟩ := ht.inv.table
  have hlt := s.traceTbl.numBuckets.toNat_lt
  rw [Tbl.boundKeys, List.length_map]
  have hsub : ((positions s.traceTbl.numBuckets.toNat).filter fun p =>
      s.traceTbl.buckets.Occupied p).Subperm (bucketEntries.map fun i => (0, i)) := by
    apply List.subperm_of_subset ((nodup_positions (by omega)).filter _)
    intro p hp
    obtain ⟨-, hocc⟩ := List.mem_filter.mp hp
    have hocc : s.traceTbl.buckets.Occupied p := of_decide_eq_true hocc
    have hb := ht.bucketOf_iff.mp (htbl.core.bucketOf hocc)
    rw [traceBucketOf, hhash _ (htbl.core.mem_boundKeys.mpr ⟨_, p, hocc, rfl, rfl⟩),
      Bool.or_eq_true, beq_iff_eq, beq_iff_eq] at hb
    have hzero : p.1 = 0 := by
      rcases hb with hb | hb
      · exact hb.trans (by decide)
      · exact hb.trans (by decide)
    exact List.mem_map.mpr ⟨p.2, mem_bucketEntries _, by rw [← hzero]⟩
  exact hsub.length_le

-- ============================================================ the two runs

/-- The trace a call's record is in. -/
def traceOf (s : DumpState) (x : RecordFmt × UInt32) : Option (Option UInt32) :=
  (cuckoohashLookupData s.traceTbl (keyOf x)).2

/-- What is dumped for some records does not depend on the gaps, and stored
records with equal ids are in one trace. -/
def GroupedById (s₀ : DumpState) (recs : List RecordFmt) : Prop :=
  ∀ xs ys : List (RecordFmt × UInt32),
    xs.map Prod.fst = recs → ys.map Prod.fst = recs →
    ∃ s rets s' rets', Lts.trace readOne s₀ xs = some (s, rets)
      ∧ Lts.trace readOne s₀ ys = some (s', rets')
      ∧ (∀ id c, Dumps s id c ↔ Dumps s' id c)
      ∧ ∀ x ∈ succeeded xs rets, ∀ y ∈ succeeded xs rets,
          x.1.id = y.1.id → traceOf s x = traceOf s y

theorem succeeded_append {α : Type} {xs : List α} {rets : List Int}
    (hlen : xs.length = rets.length) (ys : List α) (rets' : List Int) :
    succeeded (xs ++ ys) (rets ++ rets') = succeeded xs rets ++ succeeded ys rets' := by
  unfold succeeded
  rw [List.zip_append hlen, List.filter_append, List.map_append]

theorem succeeded_replicate {α : Type} (xs : List α) :
    succeeded xs (List.replicate xs.length 0) = xs := by
  induction xs with
  | nil => rfl
  | cons x xs ih =>
      unfold succeeded at ih ⊢
      rw [List.length_cons, List.replicate_succ, List.zip_cons_cons,
        List.filter_cons, if_pos (decide_eq_true rfl), List.map_cons, ih]

/-- A stored record's key leads to an index no other key leads to. -/
theorem traceOf_inj (hi : DumpInv s avail) {x y : RecordFmt × UInt32} {i j : UInt32}
    (hx : s.traceTbl.Binds (keyOf x) (some i))
    (hy : s.traceTbl.Binds (keyOf y) (some j))
    (heq : traceOf s x = traceOf s y) : keyOf x = keyOf y := by
  obtain ⟨free, htbl⟩ := hi.table
  obtain ⟨p, hp, hpk, hpd⟩ := hx
  obtain ⟨q, hq, hqk, hqd⟩ := hy
  unfold traceOf at heq
  rw [lookup_present htbl.core hp hpk, lookup_present htbl.core hq hqk, hpd, hqd,
    Option.some.injEq, Option.some.injEq] at heq
  exact hi.inj _ _ (some i) ⟨p, hp, hpk, hpd⟩ ⟨q, hq, hqk, by rw [hqd, heq]⟩

section Runs

variable {mmapOk : UInt32 → Bool} {env env' : CreateEnv} {recs : List RecordFmt}

theorem init_table (hinit : initTraceTbl mmapOk env env' = some (.ok s₀)) :
    DumpTable s₀ freshIndices ∧ Shows s₀ (fun _ => none)
      ∧ s₀.traceTbl.boundKeys = [] := by
  obtain ⟨hi, hs, hbuckets, hentries⟩ := init_inv hinit
  refine ⟨⟨hi, hbuckets, hentries⟩, hs, List.eq_nil_iff_forall_not_mem.mpr ?_⟩
  intro k hk
  obtain ⟨c, hc⟩ := (hs.mem_boundKeys hi).mp hk
  cases hc

/-- From the start, records with different keys of which no five share a
bucket are all stored. -/
theorem trace_fits_init (hinit : initTraceTbl mmapOk env env' = some (.ok s₀))
    {xs : List (RecordFmt × UInt32)}
    (hloc : ∀ x ∈ xs, x.1.location.toNat < locMax)
    (hnodup : (xs.map keyOf).Nodup) (hlen : xs.length ≤ 16383)
    (hroom : ∀ b, ((xs.map keyOf).filter (traceBucketOf b)).length ≤ 4) :
    ∃ s, Lts.trace readOne s₀ xs = some (s, List.replicate xs.length 0) := by
  obtain ⟨ht, hs, hnone⟩ := init_table hinit
  have hks : ∀ k ∈ s₀.traceTbl.boundKeys, k ∈ ([] : List (List UInt8)) := by
    rw [hnone]
    exact fun _ => id
  refine trace_fits ht hs hks hloc hnodup ?_ ?_ hroom
  · rw [List.nil_append, List.length_map]
    omega
  · rw [length_freshIndices]
    exact hlen

/-- What a run from the start leaves. -/
theorem trace_init (hinit : initTraceTbl mmapOk env env' = some (.ok s₀))
    {xs : List (RecordFmt × UInt32)} {rets : List Int}
    (hloc : ∀ x ∈ xs, x.1.location.toNat < locMax)
    (htrace : Lts.trace readOne s₀ xs = some (s, rets)) :
    (∃ avail, DumpTable s avail)
      ∧ Shows s (LastWrite.writes Cell.zero (fun _ => none)
          ((succeeded xs rets).map entryOf)) := by
  obtain ⟨ht, hs, -⟩ := init_table hinit
  obtain ⟨s', rets', htrace', ⟨avail, hi⟩, hs', hh⟩ := trace_shows ht.inv hs hloc
  rw [htrace'] at htrace
  cases htrace
  exact ⟨⟨avail, hi, (header_numBuckets hh).trans ht.buckets,
    (header_entries hh).trans ht.entries⟩, hs'⟩

/-- A run whose keys all have the hash of one bucket leaves at most four. -/
theorem trace_oneBucket (hinit : initTraceTbl mmapOk env env' = some (.ok s₀))
    {xs : List (RecordFmt × UInt32)} {rets : List Int}
    (hloc : ∀ x ∈ xs, x.1.location.toNat < locMax)
    (hhash : ∀ x ∈ xs, traceHash (keyOf x) = oneBucketHash)
    (htrace : Lts.trace readOne s₀ xs = some (s, rets)) :
    s.traceTbl.boundKeys.length ≤ 4 := by
  obtain ⟨⟨avail, ht⟩, hs⟩ := trace_init hinit hloc htrace
  refine few_of_oneBucket ht fun k hk => ?_
  obtain ⟨c, hc⟩ := (hs.mem_boundKeys ht.inv).mp hk
  obtain ⟨⟨e, he, rfl⟩, -⟩ := LastWrite.writes_eq_some.mp hc
  obtain ⟨y, hy, rfl⟩ := List.mem_map.mp he
  exact hhash y (mem_of_mem_succeeded hy)

/-- Up to four records with different ids are grouped by id. -/
theorem grouped_of_few (hinit : initTraceTbl mmapOk env env' = some (.ok s₀))
    (hloc : ∀ r ∈ recs, r.location.toNat < locMax) (hlen : recs.length ≤ 4)
    (hids : (recs.map RecordFmt.id).Nodup) : GroupedById s₀ recs := by
  -- every run stores all records, and its keys are as good as ids
  have hrun : ∀ xs : List (RecordFmt × UInt32), xs.map Prod.fst = recs →
      ∃ s, Lts.trace readOne s₀ xs = some (s, List.replicate xs.length 0)
        ∧ KeyedById xs
        ∧ ∀ id c, Dumps s id c
            ↔ (∃ r ∈ recs, r.id = id) ∧ c = lastCell recs id := by
    intro xs hfst
    subst hfst
    rw [List.length_map] at hlen
    rw [List.map_map] at hids
    have hlocx : ∀ x ∈ xs, x.1.location.toNat < locMax :=
      fun x hx => hloc x.1 (List.mem_map_of_mem hx)
    have hinj : ∀ x ∈ xs, ∀ y ∈ xs, x.1.id = y.1.id → x = y :=
      fun x hx y hy h => List.inj_on_of_nodup_map hids hx hy h
    have hkeyed : KeyedById xs := by
      intro x hx y hy
      constructor
      · intro h
        rw [← idOfKey_keyOf x, ← idOfKey_keyOf y, h]
      · intro h
        rw [hinj x hx y hy h]
    have hkeys : (xs.map keyOf).Nodup :=
      List.Nodup.map_on (fun x hx y hy h => hinj x hx y hy ((hkeyed x hx y hy).mp h))
        (List.Nodup.of_map _ hids)
    obtain ⟨s, htrace⟩ := trace_fits_init hinit hlocx hkeys (by omega) fun b =>
      (List.length_filter_le _ _).trans (by rw [List.length_map]; exact hlen)
    obtain ⟨⟨avail, ht⟩, hs⟩ := trace_init hinit hlocx htrace
    rw [succeeded_replicate] at hs
    exact ⟨s, htrace, hkeyed, dumps_grouped ht.inv hs hkeyed hlocx⟩
  intro xs ys hx hy
  obtain ⟨s, htrace, hkeyed, hdumps⟩ := hrun xs hx
  obtain ⟨s', htrace', -, hdumps'⟩ := hrun ys hy
  refine ⟨s, _, s', _, htrace, htrace',
    fun id c => (hdumps id c).trans (hdumps' id c).symm, ?_⟩
  rw [succeeded_replicate]
  intro x hx y hy hid
  rw [traceOf, traceOf, (hkeyed x hx y hy).mpr hid]

/-- Five hashes whose buckets are apart. -/
def apartHashes : List UInt32 := [0, 1, 2, 3, 4]

/-- No bucket is one of the two of all five. -/
theorem room_of_apart {keys : List (List UInt8)}
    (hkeys : keys.map traceHash = apartHashes.take keys.length) (b : UInt32) :
    (keys.filter (traceBucketOf b)).length ≤ 4 := by
  have hlen := congrArg List.length hkeys
  rw [List.length_map, List.length_take, show apartHashes.length = 5 from rfl] at hlen
  rcases Nat.lt_or_ge keys.length 5 with hfew | hfive
  · exact (List.length_filter_le _ _).trans (Nat.le_of_lt_succ hfew)
  have h5 : keys.length = 5 := by omega
  -- the first two have no bucket in common
  have hhash : ∀ i (hi : i < keys.length), traceHash keys[i] = apartHashes.getD i 0 := by
    intro i hi
    have hget := congrArg (·[i]?) hkeys
    simp only [List.getElem?_map, List.getElem?_eq_getElem hi, Option.map_some,
      List.getElem?_take_of_lt hi] at hget
    rw [List.getD_eq_getElem?_getD, ← hget, Option.getD_some]
  have h0 := hhash 0 (by omega)
  have h1 := hhash 1 (by omega)
  suffices hlt : (keys.filter (traceBucketOf b)).length < keys.length by omega
  rw [List.length_filter_lt_length_iff_exists]
  by_cases hb : traceBucketOf b keys[0] = true
  · refine ⟨keys[1], List.getElem_mem _, fun hb' => ?_⟩
    rw [traceBucketOf, h0, Bool.or_eq_true, beq_iff_eq, beq_iff_eq] at hb
    rw [traceBucketOf, h1, Bool.or_eq_true, beq_iff_eq, beq_iff_eq] at hb'
    rcases hb with rfl | rfl <;> rcases hb' with hb' | hb' <;>
      exact absurd hb' (by decide)
  · exact ⟨keys[0], List.getElem_mem _, hb⟩

/-- With hashes apart the first five records are all stored. -/
theorem first_five_stored (hinit : initTraceTbl mmapOk env env' = some (.ok s₀))
    (hloc : ∀ r ∈ recs, r.location.toNat < locMax) :
    ∃ xs zs : List (RecordFmt × UInt32), (xs ++ zs).map Prod.fst = recs
      ∧ xs.map Prod.fst = recs.take 5
      ∧ (xs.map fun x => traceHash (keyOf x)).Nodup
      ∧ ∀ s rets, Lts.trace readOne s₀ (xs ++ zs) = some (s, rets) →
          ∀ x ∈ xs, x ∈ succeeded (xs ++ zs) rets := by
  have hfive : (recs.take 5).length ≤ apartHashes.length := List.length_take_le _ _
  obtain ⟨xs, hfst, hhash⟩ := exists_gaps (recs.take 5) apartHashes hfive
  have hlen : xs.length = (recs.take 5).length := by rw [← hfst, List.length_map]
  have hapart : (xs.map fun x => traceHash (keyOf x)).Nodup := by
    rw [hhash]
    exact List.Nodup.sublist (List.take_sublist _ _) (by decide)
  refine ⟨xs, (recs.drop 5).map (·, 0), ?_, hfst, hapart, ?_⟩
  · rw [List.map_append, hfst, List.map_map]
    exact (congrArg _ (List.map_id _)).trans (List.take_append_drop 5 recs)
  have hlocx : ∀ x ∈ xs, x.1.location.toNat < locMax := by
    intro x hx
    refine hloc x.1 (List.mem_of_mem_take (hfst ▸ List.mem_map_of_mem hx))
  have hkeys : (xs.map keyOf).Nodup := by
    have hcomp : (xs.map fun x => traceHash (keyOf x))
        = (xs.map keyOf).map traceHash := by
      rw [List.map_map]
      rfl
    rw [hcomp] at hapart
    exact List.Nodup.of_map _ hapart
  obtain ⟨s₁, htrace₁⟩ := trace_fits_init hinit hlocx hkeys
    (by rw [hlen]; exact hfive.trans (by decide))
    (room_of_apart (by rw [List.map_map, List.length_map, hlen]; exact hhash))
  intro s rets htrace x hx
  rw [Lts.trace_append, htrace₁, Option.bind_some] at htrace
  obtain ⟨t, -, ht⟩ := Option.map_eq_some_iff.mp htrace
  cases ht
  rw [succeeded_append (by rw [List.length_replicate]), succeeded_replicate]
  exact List.mem_append_left _ hx

/-- Records grouped by id are at most four, with different ids. -/
theorem few_of_grouped (hinit : initTraceTbl mmapOk env env' = some (.ok s₀))
    (hloc : ∀ r ∈ recs, r.location.toNat < locMax) (hgroup : GroupedById s₀ recs) :
    recs.length ≤ 4 ∧ (recs.map RecordFmt.id).Nodup := by
  -- one run with hashes apart, one with all records in one bucket
  obtain ⟨xs, zs, hall, hfst, hapart, hstored⟩ := first_five_stored hinit hloc
  obtain ⟨ys, hys, hone⟩ := exists_gaps recs
    (List.replicate recs.length oneBucketHash) (by rw [List.length_replicate])
  obtain ⟨s, rets, s', rets', htrace, htrace', hdumps, hsame⟩ :=
    hgroup (xs ++ zs) ys hall hys
  have hlocs : ∀ {xs : List (RecordFmt × UInt32)}, xs.map Prod.fst = recs →
      ∀ x ∈ xs, x.1.location.toNat < locMax :=
    fun h x hx => hloc x.1 (h ▸ List.mem_map_of_mem hx)
  obtain ⟨⟨avail, ht⟩, hs⟩ := trace_init hinit (hlocs hall) htrace
  obtain ⟨⟨avail', ht'⟩, hs'⟩ := trace_init hinit (hlocs hys) htrace'
  -- the first five have different ids: equal ids would be in two traces
  have hids : ((recs.take 5).map RecordFmt.id).Nodup := by
    rw [← hfst, List.map_map]
    refine List.Nodup.map_on (fun x hx y hy hid => ?_) (List.Nodup.of_map _ hapart)
    obtain ⟨i, hbx⟩ := hs.binds (hstored s rets htrace x hx)
    obtain ⟨j, hby⟩ := hs.binds (hstored s rets htrace y hy)
    have hkey := traceOf_inj ht.inv hbx hby (hsame x (hstored s rets htrace x hx) y
      (hstored s rets htrace y hy) hid)
    exact List.inj_on_of_nodup_map hapart hx hy (congrArg traceHash hkey)
  -- they are all dumped in the first run, but at most four in the second
  have hsub : (recs.take 5).map RecordFmt.id ⊆ s'.traceTbl.boundKeys.map idOfKey := by
    rw [← hfst, List.map_map]
    intro id hid
    obtain ⟨x, hx, rfl⟩ := List.mem_map.mp hid
    obtain ⟨i, hb⟩ := hs.binds (hstored s rets htrace x hx)
    obtain ⟨row, hrow, hrid, -⟩ := (hdumps x.1.id _).mp
      ⟨_, (mem_dumpAllTraces ht.inv).mpr ⟨_, i, hb, rfl⟩, idOfKey_keyOf x, rfl⟩
    rw [← ids_dumpAllTraces ht'.inv]
    exact List.mem_map.mpr ⟨row, hrow, hrid⟩
  have hfour : s'.traceTbl.boundKeys.length ≤ 4 := by
    refine trace_oneBucket hinit (hlocs hys) (fun y hy => ?_) htrace'
    have hmem : traceHash (keyOf y) ∈ ys.map fun y => traceHash (keyOf y) :=
      List.mem_map_of_mem hy
    rw [hone] at hmem
    exact List.eq_of_mem_replicate (List.mem_of_mem_take hmem)
  have hle := (List.subperm_of_subset hids hsub).length_le
  rw [List.length_map, List.length_map, List.length_take] at hle
  have hshort : recs.length ≤ 4 := by omega
  rw [List.take_of_length_le (by omega)] at hids
  exact ⟨hshort, hids⟩

/-- What is dumped depends only on the ids, whatever the gap bytes of each
call, exactly when there are at most four records and no id occurs twice. -/
theorem groupedById_iff (hinit : initTraceTbl mmapOk env env' = some (.ok s₀))
    (hloc : ∀ r ∈ recs, r.location.toNat < locMax) :
    GroupedById s₀ recs ↔ recs.length ≤ 4 ∧ (recs.map RecordFmt.id).Nodup :=
  ⟨few_of_grouped hinit hloc, fun h => grouped_of_few hinit hloc h.1 h.2⟩

/-- Records of three probes of two senders. -/
def threeProbes : List RecordFmt :=
  [{ tid := 3, location := 0, probeSender := 0, probeIdx := 5
     timestamp := { tsType := 0, word0 := 100, word1 := 0 } },
   { tid := 3, location := 0, probeSender := 0, probeIdx := 6
     timestamp := { tsType := 0, word0 := 105, word1 := 0 } },
   { tid := 4, location := 1, probeSender := 1, probeIdx := 5
     timestamp := { tsType := 0, word0 := 110, word1 := 0 } }]

/-- Those are grouped by id; with the first record once more they are not. -/
theorem groupedById_iff_threeProbes :
    ∃ s₀, initTraceTbl (fun _ => true) okEnv okEnv = some (.ok s₀)
      ∧ GroupedById s₀ threeProbes
      ∧ ¬ GroupedById s₀ (threeProbes ++ threeProbes.take 1) := by
  obtain ⟨s₀, hinit⟩ := init_returns
  refine ⟨s₀, hinit, (groupedById_iff hinit (by decide)).mpr (by decide), fun hgroup => ?_⟩
  exact absurd ((groupedById_iff hinit (by decide)).mp hgroup).2 (by decide)

/-- Two records of one probe, taken at two places. -/
def oneProbe : List RecordFmt :=
  [{ tid := 3, location := 0, probeSender := 0, probeIdx := 5
     timestamp := { tsType := 0, word0 := 100, word1 := 0 } },
   { tid := 4, location := 1, probeSender := 0, probeIdx := 5
     timestamp := { tsType := 0, word0 := 110, word1 := 0 } }]

/-- The two calls, with gaps 0 and 1. -/
def splitCalls : List (RecordFmt × UInt32) := oneProbe.zip [0, 1]

/-- Both records are stored, in two traces. -/
theorem gap_splits_trace :
    ∃ s₀ s, initTraceTbl (fun _ => true) okEnv okEnv = some (.ok s₀)
      ∧ Lts.trace readOne s₀ splitCalls = some (s, [0, 0])
      ∧ (∀ x ∈ splitCalls, ∀ y ∈ splitCalls,
          x.1.id = y.1.id ∧ (x ≠ y → traceOf s x ≠ traceOf s y))
      ∧ ¬ GroupedById s₀ oneProbe := by
  obtain ⟨s₀, hinit⟩ := init_returns
  have hloc : ∀ x ∈ splitCalls, x.1.location.toNat < locMax := by decide
  have hids : ∀ x ∈ splitCalls, ∀ y ∈ splitCalls,
      x.1.id = y.1.id := by decide
  have hkeys : (splitCalls.map keyOf).Nodup := by decide
  obtain ⟨s, htrace⟩ := trace_fits_init hinit hloc hkeys (by decide) fun b =>
    (List.length_filter_le _ _).trans (by decide)
  obtain ⟨⟨avail, ht⟩, hs⟩ := trace_init hinit hloc htrace
  rw [succeeded_replicate] at hs
  refine ⟨s₀, s, hinit, htrace, fun x hx y hy => ⟨hids x hx y hy, ?_⟩, ?_⟩
  · intro hne heq
    obtain ⟨i, hbx⟩ := hs.binds hx
    obtain ⟨j, hby⟩ := hs.binds hy
    exact hne (List.inj_on_of_nodup_map hkeys hx hy (traceOf_inj ht.inv hbx hby heq))
  · intro hgroup
    exact absurd (few_of_grouped hinit (by decide) hgroup).2 (by decide)

end Runs

end PktSender.Dump
