/-
A lookup that runs while the writer thread works.

The lookup is two atomic steps, the scan of the primary bucket and the scan
of the secondary one, and the writer completes any calls before the first
and between the two. An entry found by either scan is the key's, so the only
way to miss a key that is there all the time is that it is in its secondary
bucket at the first scan and in its primary bucket at the second
(`lookup_during_iff`). An eviction in the secondary bucket moves it there
(`lookup_during_misses`).
-/
import PktSender.Cuckoo.Proofs.Map

namespace PktSender.Cuckoo

open PktSender.Ring

variable {D : Type}

/-- A lookup between whose two scans the writer makes the calls `between`:
what it returns. -/
def lookupDuring (h : Tbl D) (between : List (TblOp D)) (key : List UInt8) :
    Option (Int × Option D) :=
  let sig := hash h key
  match lookupPrimary h key sig with
  | some r => some r
  | none =>
      (Lts.trace tblExec h between).map fun t => lookupSecondary t.1 key sig

/-- The key is bound at the start and after each of the calls. -/
def PresentThroughout (h : Tbl D) (ops : List (TblOp D)) (key : List UInt8) :
    Prop :=
  ∀ n ≤ ops.length, ∀ h' rets,
    Lts.trace tblExec h (ops.take n) = some (h', rets) → ∃ d, h'.Binds key d

/-- The key's entry is in the bucket of its primary hash. -/
def InPrimary (h : Tbl D) (key : List UInt8) : Prop :=
  ∃ p, h.Occupied p ∧ h.key p = key
    ∧ (h.buckets.sigs p).current = hash h key

/-- The key's entry is in the bucket of its secondary hash. -/
def InSecondary (h : Tbl D) (key : List UInt8) : Prop :=
  ∃ p, h.Occupied p ∧ h.key p = key
    ∧ (h.buckets.sigs p).current = hashSecondary (hash h key)

variable {h : Tbl D} {rest : List UInt32} {key : List UInt8}

/-- A key in the table is in one of the two buckets, -/
theorem Core.primary_or_secondary (hc : Core h rest) {d : D}
    (hb : h.Binds key d) : InPrimary h key ∨ InSecondary h key := by
  obtain ⟨p, hp, hk, -⟩ := hb
  rcases hc.entry_of_key hp hk with ⟨-, hs⟩ | ⟨-, hs⟩
  · exact .inl ⟨p, hp, hk, congrArg Signatures.current hs⟩
  · exact .inr ⟨p, hp, hk, congrArg Signatures.current hs⟩

/-- and not in both. -/
theorem Core.not_both (hc : Core h rest) (h1 : InPrimary h key) :
    ¬ InSecondary h key := by
  intro hex
  obtain ⟨q, hq, hkq, hcq⟩ := hex
  obtain ⟨p, hp, hkp, hcp⟩ := h1
  obtain rfl := hc.distinct p q hp hq (hkp.trans hkq.symm)
  exact hashSecondary_ne _ (hcq.symm.trans hcp)

/-- What a lookup returns for an entry it stops at is no error. -/
theorem Core.lookupResult_nonneg (hc : Core h rest) {b : UInt32} {i : Fin 4}
    (hocc : h.Occupied (b, i)) : 0 ≤ (lookupResult h b i).1 := by
  have hused := hc.used _ hocc
  have hret : (lookupResult h b i).1
      = ((h.buckets.idx (b, i)).toNat : Int) - 1 := hc.ret_eq hused
  have hpos := hused.1
  rw [hret]
  omega

/-- The first scan finds the key exactly when it is in its primary bucket,
and then returns its slot. -/
theorem Core.lookupPrimary_iff (hc : Core h rest) :
    (InPrimary h key → ∃ r, lookupPrimary h key (hash h key) = some r ∧ 0 ≤ r.1)
      ∧ (¬ InPrimary h key → lookupPrimary h key (hash h key) = none) := by
  unfold lookupPrimary scanPrimary
  cases hf : findCurrent h key (hash h key &&& h.bucketBitmask) (hash h key) with
  | some i =>
      obtain ⟨hcur, hocc, hk⟩ := findCurrent_some hf
      exact ⟨fun _ => ⟨_, rfl, hc.lookupResult_nonneg hocc⟩,
        fun hno => absurd ⟨_, hocc, hk, hcur⟩ hno⟩
  | none =>
      refine ⟨?_, fun _ => rfl⟩
      intro hex
      obtain ⟨⟨b, i⟩, hp, hk, hcur⟩ := hex
      have hhome := hc.home _ hp
      rw [hcur] at hhome
      obtain rfl : b = _ := hhome
      exact absurd hk (findCurrent_none hf i hcur hp)

/-- So does the second scan for the secondary bucket. -/
theorem Core.lookupSecondary_iff (hc : Core h rest) :
    (InSecondary h key → 0 ≤ (lookupSecondary h key (hash h key)).1)
      ∧ (¬ InSecondary h key →
          (lookupSecondary h key (hash h key)).1 = -ENOENT) := by
  unfold lookupSecondary scanSecondary
  cases hf : findEntry h key (hashSecondary (hash h key) &&& h.bucketBitmask)
      (hashSecondary (hash h key)) (hash h key) with
  | some i =>
      obtain ⟨hs, hk⟩ := findEntry_some hf
      have hocc : h.Occupied
          (hashSecondary (hash h key) &&& h.bucketBitmask, i) := by
        rw [Tbl.Occupied, Buckets.Occupied, hs]
        exact swap_sigPair_ne_null (hash h key)
      exact ⟨fun _ => hc.lookupResult_nonneg hocc, fun hno =>
        absurd ⟨_, hocc, hk, congrArg Signatures.current hs⟩ hno⟩
  | none =>
      refine ⟨?_, fun _ => rfl⟩
      intro hex
      obtain ⟨⟨b, i⟩, hp, hk, hcur⟩ := hex
      rcases hc.entry_of_key hp hk with ⟨-, hs⟩ | ⟨hb, hs⟩
      · exact absurd (hcur.symm.trans (congrArg Signatures.current hs))
          (hashSecondary_ne _)
      · obtain rfl : b = _ := hb
        exact absurd hk (findEntry_none hf i hs)

section Runs

variable [Inhabited D] {mmapOk : UInt32 → Bool} {env : CreateEnv}
  {keyLen entryNr : UInt32} {h₀ : Tbl D}

/-- Whatever the writer does before and during a lookup of a key that is in
the table all the time, the lookup misses the key exactly when it is in its
secondary bucket at the first scan and in its primary bucket at the
second. -/
theorem lookup_during_iff
    (hc : cuckoohashCreate mmapOk env keyLen entryNr = some (.ok h₀))
    (hsize : exactSize keyLen entryNr < 2 ^ 32)
    {before between : List (TblOp D)}
    (hbefore : ∀ op ∈ before, op.key.length = keyLen.toNat)
    (hbetween : ∀ op ∈ between, op.key.length = keyLen.toNat) :
    ∃ h rets h' rets', Lts.trace tblExec h₀ before = some (h, rets)
      ∧ Lts.trace tblExec h between = some (h', rets')
      ∧ ∀ key, PresentThroughout h between key →
          ∃ r, lookupDuring h between key = some r
            ∧ (r.1 ≠ -ENOENT ↔ ¬ (InSecondary h key ∧ InPrimary h' key)) := by
  obtain ⟨-, -, hlen, -⟩ := create_inv hsize hc
  obtain ⟨h, rets, m, htrace, -, ⟨free, hi⟩, hr, hh⟩ :=
    trace_map hc hsize hbefore
  have hlen' : h.keyLen.toNat = keyLen.toNat := by rw [header_keyLen hh, hlen]
  obtain ⟨h', rets', -, htrace', -, ⟨free', hi'⟩, -, hh'⟩ :=
    trace_inv hi hr fun op hop => (hbetween op hop).trans hlen'.symm
  refine ⟨h, rets, h', rets', htrace, htrace', fun key hthere => ?_⟩
  -- the key is bound at both scans
  obtain ⟨d, hd⟩ := hthere 0 (Nat.zero_le _) h [] rfl
  obtain ⟨d', hd'⟩ := hthere between.length le_rfl h' rets' (by
    rw [List.take_length]
    exact htrace')
  have hhash : hash h key = hash h' key := by
    rw [hash, hash, header_keyLen hh']
  unfold lookupDuring
  by_cases h1 : InPrimary h key
  · obtain ⟨r, hscan, hpos⟩ := hi.core.lookupPrimary_iff.1 h1
    refine ⟨r, by simp only [hscan], ?_⟩
    have hne : r.1 ≠ -ENOENT := fun he => by
      rw [he] at hpos
      exact absurd hpos (by decide)
    exact iff_of_true hne fun hcon => hi.core.not_both h1 hcon.1
  · have h2 := (hi.core.primary_or_secondary hd).resolve_left h1
    have hscan := hi.core.lookupPrimary_iff.2 h1
    refine ⟨lookupSecondary h' key (hash h key), by simp only [hscan, htrace',
      Option.map_some], ?_⟩
    rw [hhash]
    by_cases h1' : InPrimary h' key
    · have hmiss := hi'.core.lookupSecondary_iff.2 (hi'.core.not_both h1')
      exact iff_of_false (fun hne => hne hmiss) (fun hno => hno ⟨h2, h1'⟩)
    · have h2' := (hi'.core.primary_or_secondary hd').resolve_left h1'
      have hpos := hi'.core.lookupSecondary_iff.1 h2'
      refine iff_of_true (fun he => ?_) fun hcon => h1' hcon.2
      rw [he] at hpos
      exact absurd hpos (by decide)

end Runs

/-- Keys 0, 1, 6, 8 and 9 have bucket 0 as their primary one and 2, 3, 4 and
5 bucket 1. Key 6 is evicted to bucket 1 by the last add. -/
def raceBefore : List (TblOp Nat) :=
  [.add [6] 60, .add [0] 0, .add [1] 10, .add [8] 80, .add [9] 90]

/-- A delete makes room in bucket 0, three adds fill bucket 1, and the fourth
evicts key 6 from there. -/
def raceBetween : List (TblOp Nat) :=
  [.del [0], .add [2] 20, .add [3] 30, .add [4] 40, .add [5] 50]

theorem six_present {h : Tbl Nat} (hafter : tableAfter raceBefore = some h) :
    PresentThroughout h raceBetween [6] := by
  intro n hn h' rets' htrace'
  have hfound : ∀ n : Fin 6, ((tableAfter raceBefore).bind fun h =>
      (Lts.trace tblExec h (raceBetween.take n)).map fun t =>
        (cuckoohashLookupData t.1 [6]).1) = some 0 := by decide +kernel
  have hn' := hfound ⟨n, Nat.lt_succ_of_le hn⟩
  rw [hafter, Option.bind_some, htrace', Option.map_some,
    Option.some.injEq] at hn'
  by_contra hno
  rw [@lookup_absent _ h' [6] fun p hp hk =>
    hno ⟨h'.datum p, p, hp, hk, rfl⟩] at hn'
  exact absurd hn' (by decide)

theorem lookup_during_iff_eight :
    ∃ h₀ h rets h' rets', cuckoohashCreate (fun _ => true)
        { openOk := true, ftruncateOk := fun _ => true
          mmapOk := fun _ => true } 1 8 = some (.ok h₀)
      ∧ Lts.trace tblExec h₀ raceBefore = some (h, rets)
      ∧ Lts.trace tblExec h raceBetween = some (h', rets')
      ∧ PresentThroughout h raceBetween [6]
      ∧ ∃ r, lookupDuring h raceBetween [6] = some r
          ∧ (r.1 ≠ -ENOENT ↔ ¬ (InSecondary h [6] ∧ InPrimary h' [6])) := by
  have hsize : exactSize 1 8 < 2 ^ 32 := by decide
  obtain ⟨h₀, hc⟩ := create_returns (D := Nat) (by decide) (by decide) hsize
  have hkeys : (∀ op ∈ raceBefore, op.key.length = (1 : UInt32).toNat)
      ∧ ∀ op ∈ raceBetween, op.key.length = (1 : UInt32).toNat := by decide
  obtain ⟨h, rets, h', rets', htrace, htrace', hiff⟩ :=
    lookup_during_iff hc hsize hkeys.1 hkeys.2
  have hthere : PresentThroughout h raceBetween [6] :=
    six_present (by simp only [tableAfter, hc, htrace, Option.map_some])
  exact ⟨h₀, h, rets, h', rets', hc, htrace, htrace', hthere,
    hiff [6] hthere⟩

/-- Key 6 is in the table all the time, and a lookup of it returns
`-ENOENT`. -/
theorem lookup_during_misses :
    ∃ h₀ h rets, cuckoohashCreate (fun _ => true)
        { openOk := true, ftruncateOk := fun _ => true
          mmapOk := fun _ => true } 1 8 = some (.ok h₀)
      ∧ Lts.trace tblExec h₀ raceBefore = some (h, rets)
      ∧ PresentThroughout h raceBetween [6]
      ∧ lookupDuring h raceBetween [6] = some (-ENOENT, none) := by
  have hsize : exactSize 1 8 < 2 ^ 32 := by decide
  obtain ⟨h₀, hc⟩ := create_returns (D := Nat) (by decide) (by decide) hsize
  have hkeys : ∀ op ∈ raceBefore, op.key.length = (1 : UInt32).toNat := by decide
  obtain ⟨h, rets, -, htrace, -⟩ := trace_map hc hsize hkeys
  have hafter : tableAfter raceBefore = some h := by
    simp only [tableAfter, hc, htrace, Option.map_some]
  have hlookup : ((tableAfter raceBefore).bind fun h =>
      lookupDuring h raceBetween [6]) = some (-ENOENT, none) := by
    decide +kernel
  rw [hafter, Option.bind_some] at hlookup
  exact ⟨h₀, h, rets, hc, htrace, six_present hafter, hlookup⟩

end PktSender.Cuckoo
