/-
When an add cannot fail.

An add fails when no slot is free or when the walk finds no room. The first
needs as many keys in the table as it has slots (`Inv.length_boundKeys`),
the second a full primary bucket, that is four other keys of which it is the
primary or the secondary bucket (`Core.four_of_full`). `addKey_fits` says
that nothing else makes it fail.
-/
import PktSender.Cuckoo.Proofs.Map

namespace PktSender.Cuckoo

open PktSender.Ring

variable {D : Type} {h : Tbl D} {free rest : List UInt32}

/-- The keys of the table, bucket by bucket. -/
def Tbl.boundKeys (h : Tbl D) : List (List UInt8) :=
  ((positions h.numBuckets.toNat).filter fun p => h.buckets.Occupied p).map
    h.key

theorem Core.mem_boundKeys (hc : Core h rest) {k : List UInt8} :
    k ∈ h.boundKeys ↔ ∃ d, h.Binds k d := by
  unfold Tbl.boundKeys
  rw [List.mem_map]
  constructor
  · intro hex
    obtain ⟨p, hp, rfl⟩ := hex
    rw [List.mem_filter, decide_eq_true_eq] at hp
    exact ⟨h.datum p, p, hp.2, rfl, rfl⟩
  · intro hex
    obtain ⟨d, p, hp, rfl, -⟩ := hex
    exact ⟨p, List.mem_filter.mpr ⟨hc.mem_positions hp, decide_eq_true hp⟩, rfl⟩

theorem Core.nodup_boundKeys (hc : Core h rest) : h.boundKeys.Nodup := by
  have hlt := h.numBuckets.toNat_lt
  refine List.Nodup.map_on ?_ ((nodup_positions (by omega)).filter _)
  intro p hp q hq heq
  rw [List.mem_filter, decide_eq_true_eq] at hp hq
  exact hc.distinct p q hp.2 hq.2 heq

/-- Every slot is free or has a key. -/
theorem Inv.length_boundKeys (hi : Inv h free []) :
    free.length + h.boundKeys.length = h.entries.toNat := by
  have hperm := hi.slots_perm.length_eq
  rw [List.length_append, slotNumbers, List.length_map, List.length_range',
    Tbl.usedSlots, List.length_map] at hperm
  rw [Tbl.boundKeys, List.length_map]
  exact hperm

/-- Bucket `b` is the primary or the secondary bucket of a key. -/
def Tbl.BucketOf (h : Tbl D) (k : List UInt8) (b : UInt32) : Prop :=
  b = hash h k &&& h.bucketBitmask
    ∨ b = hashSecondary (hash h k) &&& h.bucketBitmask

instance (k : List UInt8) (b : UInt32) : Decidable (h.BucketOf k b) :=
  inferInstanceAs (Decidable (_ ∨ _))

theorem Core.bucketOf (hc : Core h rest) {p : Pos} (hp : h.Occupied p) :
    h.BucketOf (h.key p) p.1 := by
  rcases hc.entry_of_key hp rfl with ⟨hb, -⟩ | ⟨hb, -⟩
  · exact .inl hb
  · exact .inr hb

/-- A full bucket is one of the two of four keys. -/
theorem Core.four_of_full (hc : Core h rest) {b : UInt32}
    (hfull : h.buckets.Full b) :
    4 ≤ (h.boundKeys.filter fun k => h.BucketOf k b).length := by
  have hnodup : (bucketEntries.map fun i => h.key (b, i)).Nodup := by
    refine List.Nodup.map ?_ (by decide)
    intro i j heq
    exact (Prod.mk.inj (hc.distinct _ _ (hfull i) (hfull j) heq)).2
  refine (List.subperm_of_subset hnodup fun k hk => ?_).length_le
  obtain ⟨i, -, rfl⟩ := List.mem_map.mp hk
  exact List.mem_filter.mpr ⟨hc.mem_boundKeys.mpr ⟨_, _, hfull i, rfl, rfl⟩,
    decide_eq_true (hc.bucketOf (hfull i))⟩

/-- Adding a new key with a slot at hand is inserting it. -/
theorem addKeyWithHash_absent {f : UInt32} (hi : Inv h (f :: free) [])
    {key : List UInt8} (hno : ∀ p, h.Occupied p → h.key p ≠ key) (data : D) :
    ∃ r, Inv (h.withRing r (.get 4)) free [f]
      ∧ addKeyWithHash h key (hash h key) data
        = insertEntry ((h.withRing r (.get 4)).setSlot f { pdata := data, key := key })
            (hash h key &&& h.bucketBitmask) (hash h key) (hashSecondary (hash h key))
            f := by
  obtain ⟨r, hget, hi'⟩ := hi.getSlot_cons
  have hmiss : ∀ b s s', (s ≠ 0 ∨ s' ≠ 0) →
      findEntry (h.withRing r (.get 4)) key b s s' = none := by
    intro b s s' hs
    cases hf : findEntry (h.withRing r (.get 4)) key b s s' with
    | none => rfl
    | some j =>
        obtain ⟨hsj, hkj⟩ := findEntry_some hf
        refine absurd hkj (hno (b, j) ?_)
        show (h.buckets.sigs (b, j)).sig ≠ nullSignature
        rw [show h.buckets.sigs (b, j) = _ from hsj, Ne, Signatures.sig_eq_null]
        intro hex
        obtain ⟨h1, h2⟩ := hex
        rcases hs with hs | hs
        · exact hs h1
        · exact hs h2
  have hpair : hash h key ≠ 0 ∨ hashSecondary (hash h key) ≠ 0 := by
    by_cases hz : hash h key = 0
    · exact .inr fun hz' => hashSecondary_ne _ (hz'.trans hz.symm)
    · exact .inl hz
  exact ⟨r, hi', addKeyWithHash_new hget (hmiss _ _ _ hpair) (hmiss _ _ _ hpair.symm)⟩

/-- A new key gets an entry when a slot is free and its primary bucket is not
full. -/
theorem addKey_fits (hi : Inv h free []) {key : List UInt8} (data : D)
    (hno : ∀ p, h.Occupied p → h.key p ≠ key) (hfree : free ≠ [])
    (hroom : ¬ h.buckets.Full (hash h key &&& h.bucketBitmask)) :
    ∃ h', cuckoohashAddKeyData h key data = some (h', 0) := by
  obtain ⟨f, free, rfl⟩ := List.exists_cons_of_ne_nil hfree
  obtain ⟨r, hi', habsent⟩ := addKeyWithHash_absent hi hno data
  obtain ⟨i, hfound⟩ := Option.ne_none_iff_exists'.mp
    fun hnone => hroom (freeEntry_eq_none.mp hnone)
  have hret := hi'.core.ret_eq hi'.held
  have hslot := hi'.held
  have hadd : ∃ h', addKeyWithHash h key (hash h key) data
      = some (h', toInt32 (f - 1)) := by
    refine ⟨(((h.withRing r (.get 4)).setSlot f
      { pdata := data, key := key }).setEntry (hash h key &&& h.bucketBitmask) i
      (hash h key) (hashSecondary (hash h key)) f), ?_⟩
    rw [habsent]
    unfold insertEntry
    rw [show (((h.withRing r (.get 4)).setSlot f
      { pdata := data, key := key }).buckets
        (hash h key &&& h.bucketBitmask)).freeEntry = some i from hfound]
  obtain ⟨h', hadd⟩ := hadd
  refine ⟨h', ?_⟩
  rw [cuckoohashAddKeyData, hadd, hret, Option.map_some]
  simp only
  rw [if_pos (by have := hslot.1; omega)]

/-- The walk from the bucket finds no place: the slot goes back. -/
theorem insertEntry_walkFails {prim sig altHash idx : UInt32} {bs : Buckets} {e : Int}
    (hfull : h.buckets.Full prim)
    (hcall : makeSpaceBucket h.bucketBitmask (4 * (h.bucketBitmask.toNat + 1) + 1)
      h.buckets prim = some (bs, .error e)) :
    insertEntry h prim sig altHash idx
      = (putSlot { h with buckets := bs } idx).map fun h => (h, e) := by
  unfold insertEntry
  rw [freeEntry_eq_none.mpr hfull]
  simp only
  rw [hcall]

/-- Then a new key is refused. -/
theorem addKey_refused (hi : Inv h free []) {key : List UInt8}
    (hlen : key.length = h.keyLen.toNat) (data : D)
    (hno : ∀ p, h.Occupied p → h.key p ≠ key) (hfree : free ≠ [])
    (hwalk : h.WalkFails key) :
    ∃ h', cuckoohashAddKeyData h key data = some (h', -ENOSPC) := by
  obtain ⟨f, free, rfl⟩ := List.exists_cons_of_ne_nil hfree
  obtain ⟨r, hi', habsent⟩ := addKeyWithHash_absent hi hno data
  obtain ⟨hfull, bs, e, hcall⟩ := hwalk
  obtain ⟨rfl, -⟩ := (makeSpaceBucket_spec hfull hcall).2.1 e rfl
  obtain ⟨free', h', ret, hadd, -⟩ := addKeyWithHash_cases hi hlen data
  have hret : ret = -ENOSPC := by
    rw [habsent, insertEntry_walkFails
      (h := (h.withRing r (.get 4)).setSlot f { pdata := data, key := key })
      hfull hcall] at hadd
    obtain ⟨h'', -, heq⟩ := Option.map_eq_some_iff.mp hadd
    exact (Prod.mk.inj heq).2.symm
  subst hret
  refine ⟨h', ?_⟩
  rw [cuckoohashAddKeyData, hadd]
  rfl

/-- An add of a new key brings one more key. -/
theorem length_boundKeys_add {h' : Tbl D} {rest' : List UInt32} (hc : Core h rest)
    (hc' : Core h' rest') {key : List UInt8} {data : D} (hno : ∀ d, ¬ h.Binds key d)
    (hb : h.BindsAfter h' key data) :
    h'.boundKeys.length = h.boundKeys.length + 1 := by
  have hnew : key ∉ h.boundKeys := fun hmem => by
    obtain ⟨d, hd⟩ := hc.mem_boundKeys.mp hmem
    exact hno d hd
  have hperm : h'.boundKeys.Perm (key :: h.boundKeys) := by
    refine (List.perm_ext_iff_of_nodup hc'.nodup_boundKeys
      (List.nodup_cons.mpr ⟨hnew, hc.nodup_boundKeys⟩)).mpr fun k => ?_
    rw [List.mem_cons, hc'.mem_boundKeys, hc.mem_boundKeys]
    by_cases hk : k = key
    · refine iff_of_true ⟨data, ?_⟩ (.inl hk)
      rw [hb, if_pos hk]
    · rw [or_iff_right hk]
      refine exists_congr fun d => ?_
      rw [hb, if_neg hk]
  exact hperm.length_eq

/-- A call that changes no binding keeps the number of keys. -/
theorem length_boundKeys_keep {h' : Tbl D} {rest' : List UInt32} (hc : Core h rest)
    (hc' : Core h' rest') (hb : ∀ k d, h'.Binds k d ↔ h.Binds k d) :
    h'.boundKeys.length = h.boundKeys.length := by
  have hperm : h'.boundKeys.Perm h.boundKeys := by
    refine (List.perm_ext_iff_of_nodup hc'.nodup_boundKeys hc.nodup_boundKeys).mpr
      fun k => ?_
    rw [hc'.mem_boundKeys, hc.mem_boundKeys]
    exact exists_congr fun d => hb k d
  exact hperm.length_eq

end PktSender.Cuckoo
