/-
The cuckoo table is a finite map, and its slots are never lost.

`MapStep` says what add, delete and lookup do to a map from keys to data,
and what they may return; add may refuse a key at any time, but then changes
nothing. `tblExec_simulates` is the step-by-step simulation; over a whole
run from `cuckoohash_create` it gives `cuckoohash_map`, and the invariant it
carries gives `free_slots_exact`.
-/
import PktSender.Cuckoo.Proofs.Ops
import PktSender.Lib.Lts

namespace PktSender.Cuckoo

open PktSender.Ring

variable {D : Type}

-- ================================================================= create

/-- The size of a table in exact numbers. -/
def exactSize (key entryNr : UInt32) : Nat :=
  48 + (roundup2 (entriesOf entryNr)).toNat / 4 * 56
    + ((entriesOf entryNr).toNat + 1) * (8 + key.toNat)

/-- The size `create` computes, in 32 bits. -/
def realSizeOf (key entryNr : UInt32) : UInt32 :=
  sizeofTbl + roundup2 (entriesOf entryNr) / 4 * sizeofBucket
    + (entriesOf entryNr + 1) * (sizeofKey + key)

/-- The slot numbers of a table: 1 to `n`. -/
def slotNumbers (n : UInt32) : List UInt32 :=
  (List.range' 1 n.toNat).map UInt32.ofNat

theorem mem_slotNumbers {n x : UInt32} :
    x ∈ slotNumbers n ↔ 1 ≤ x.toNat ∧ x.toNat ≤ n.toNat := by
  have hlt := n.toNat_lt
  unfold slotNumbers
  rw [List.mem_map]
  constructor
  · intro hex
    obtain ⟨i, hi, rfl⟩ := hex
    have := List.mem_range'_1.mp hi
    rw [UInt32.toNat_ofNat', Nat.mod_eq_of_lt (by omega)]
    omega
  · intro hex
    obtain ⟨h1, h2⟩ := hex
    exact ⟨x.toNat, List.mem_range'_1.mpr ⟨h1, by omega⟩, UInt32.ofNat_toNat⟩

theorem nodup_slotNumbers (n : UInt32) : (slotNumbers n).Nodup := by
  have hlt := n.toNat_lt
  refine List.Nodup.map_on ?_ List.nodup_range'
  intro i hi j hj heq
  have hi' := List.mem_range'_1.mp hi
  have hj' := List.mem_range'_1.mp hj
  have hnat := congrArg UInt32.toNat heq
  rwa [UInt32.toNat_ofNat', UInt32.toNat_ofNat', Nat.mod_eq_of_lt (by omega),
    Nat.mod_eq_of_lt (by omega)] at hnat

/-- Putting a list of slot numbers on a ring with room for all of them. -/
theorem populate_ring (l : List Nat) {h : Tbl D} {items : List UInt32}
    (hr : HoldsItems h.freeSlots items)
    (hroom : 4 * (items.length + l.length + 1) ≤ h.freeSlots.dataSize.toNat)
    (hlog : ∀ c ∈ h.ringLog, c = .put 4) :
    ∃ r log, l.foldlM (fun h i => putSlot h (UInt32.ofNat i)) h
        = some { h with freeSlots := r, ringLog := log }
      ∧ HoldsItems r (items ++ l.map UInt32.ofNat)
      ∧ r.dataSize = h.freeSlots.dataSize ∧ ∀ c ∈ log, c = .put 4 := by
  induction l generalizing h items with
  | nil => exact ⟨h.freeSlots, h.ringLog, rfl, by simpa using hr, rfl, hlog⟩
  | cons i l ih =>
      rw [List.length_cons] at hroom
      obtain ⟨r, hput, hr', hsize⟩ :=
        putSlot_ring hr (UInt32.ofNat i) (by omega)
      have hlog' : ∀ c ∈ (h.withRing r (.put 4)).ringLog, c = .put 4 := by
        intro c hc
        rcases List.mem_append.mp hc with hc | hc
        · exact hlog c hc
        · exact List.mem_singleton.mp hc
      obtain ⟨r', log, hfold, hr'', hsize', hl⟩ := @ih (h.withRing r (.put 4)) _ hr'
        (by
          rw [List.length_append, List.length_singleton]
          show _ ≤ r.dataSize.toNat
          rw [hsize]
          omega) hlog'
      refine ⟨r', log, ?_, ?_, hsize'.trans hsize, hl⟩
      · rw [List.foldlM_cons, hput]
        exact hfold
      · rw [List.map_cons, ← List.append_cons] at *
        exact hr''

section Create

variable [Inhabited D] {mmapOk : UInt32 → Bool} {env : CreateEnv}
  {key entryNr : UInt32} {h : Tbl D}

/-- A call of create that succeeds has created and populated a ring. -/
theorem create_cases
    (hc : cuckoohashCreate mmapOk env key entryNr = some (.ok h)) :
    ∃ r, ringbufferCreate env none (4 * (entriesOf entryNr + 1)) = some r
      ∧ (List.range' 1 ((entriesOf entryNr + 1).toNat - 1)).foldlM
          (fun h i => putSlot h (UInt32.ofNat i))
          (zeroedTbl key (entriesOf entryNr)
            (roundup2 (entriesOf entryNr) / 4) (realSizeOf key entryNr) r)
        = some h := by
  unfold cuckoohashCreate at hc
  simp only at hc
  split at hc
  · cases hc
  · split at hc
    · cases hc
    · split at hc
      next => cases hc
      next r hr =>
        obtain ⟨h', hfold, hh⟩ := Option.map_eq_some_iff.mp hc
        cases hh
        exact ⟨r, hr, hfold⟩

theorem hashEntriesMin_le (entryNr : UInt32) : 8 ≤ (entriesOf entryNr).toNat := by
  unfold entriesOf
  split
  next => exact Nat.le_refl 8
  next hge =>
    rw [UInt32.not_lt, UInt32.le_iff_toNat_le] at hge
    exact hge

/-- What fits in 32 bits: the number of entries is small, and the number of
buckets is a power of two. -/
theorem exactSize_bounds (hsize : exactSize key entryNr < 2 ^ 32) :
    (entriesOf entryNr).toNat + 1 < 2 ^ 29
      ∧ ((entriesOf entryNr).toNat + 1) * (8 + key.toNat) < 2 ^ 32
      ∧ 4 * (roundup2 (entriesOf entryNr) / 4).toNat < 2 ^ 32
      ∧ ∃ k, (roundup2 (entriesOf entryNr) / 4).toNat = 2 ^ k := by
  have hmin := hashEntriesMin_le entryNr
  unfold exactSize at hsize
  have hle : ((entriesOf entryNr).toNat + 1) * 8
      ≤ ((entriesOf entryNr).toNat + 1) * (8 + key.toNat) :=
    Nat.mul_le_mul_left _ (by omega)
  refine ⟨by omega, by omega, ?_, ?_⟩
  · rw [UInt32.toNat_div, show (4 : UInt32).toNat = 4 from rfl]
    omega
  obtain ⟨⟨k, hk⟩, hge, -⟩ := roundup2_spec (n := entriesOf entryNr) (by omega) (by omega)
  have hk2 : 3 ≤ k := by
    by_contra hlt
    have : 2 ^ k ≤ 2 ^ 2 := Nat.pow_le_pow_right (by decide) (by omega)
    omega
  refine ⟨k - 2, ?_⟩
  rw [UInt32.toNat_div, hk, show (4 : UInt32).toNat = 2 ^ 2 from rfl,
    Nat.pow_div (by omega) (by decide)]

/-- The loop of create puts all slot numbers. -/
theorem create_populates (hsmall : (entriesOf entryNr).toNat + 1 < 2 ^ 29)
    {r : Ringbuffer} (realSize : UInt32)
    (hr : ringbufferCreate env none (4 * (entriesOf entryNr + 1)) = some r) :
    ∃ r' log, (List.range' 1 ((entriesOf entryNr + 1).toNat - 1)).foldlM
        (fun h i => putSlot h (UInt32.ofNat i))
        (zeroedTbl key (entriesOf entryNr) (roundup2 (entriesOf entryNr) / 4)
          realSize r)
        = some { zeroedTbl (D := D) key (entriesOf entryNr)
            (roundup2 (entriesOf entryNr) / 4) realSize r with
          freeSlots := r', ringLog := log }
      ∧ HoldsItems r' (slotNumbers (entriesOf entryNr))
      ∧ 4 * ((entriesOf entryNr).toNat + 1) ≤ r'.dataSize.toNat
      ∧ ∀ c ∈ log, c = .put 4 := by
  obtain ⟨hholds, hdata⟩ := holds_create hr
  have hcount : (entriesOf entryNr + 1).toNat = (entriesOf entryNr).toNat + 1 := by
    rw [UInt32.toNat_add, show (1 : UInt32).toNat = 1 from rfl,
      Nat.mod_eq_of_lt (by omega)]
  have hring : (4 * (entriesOf entryNr + 1)).toNat
      = 4 * ((entriesOf entryNr).toNat + 1) := by
    rw [UInt32.toNat_mul, hcount, show (4 : UInt32).toNat = 4 from rfl,
      Nat.mod_eq_of_lt (by omega)]
  have hcap : 4 * ((entriesOf entryNr).toNat + 1) ≤ r.dataSize.toNat := by
    rw [hdata, ← hring]
    exact le_createSize (by omega) (by omega)
  have hempty : HoldsItems (zeroedTbl (D := D) key (entriesOf entryNr)
      (roundup2 (entriesOf entryNr) / 4) realSize r).freeSlots [] := hholds
  obtain ⟨r', log, hfold, hr', hsize', hlog⟩ := populate_ring
    (List.range' 1 (entriesOf entryNr).toNat) hempty (by
      rw [List.length_nil, List.length_range', Nat.zero_add]
      exact hcap) (fun c hc => by cases hc)
  refine ⟨r', log, ?_, hr', ?_, hlog⟩
  · rw [hcount, Nat.add_sub_cancel]
    exact hfold
  · rw [hsize']
    exact hcap

/-- A created table is between two calls, empty, and has all its slots
free. -/
theorem create_inv (hsize : exactSize key entryNr < 2 ^ 32)
    (hc : cuckoohashCreate mmapOk env key entryNr = some (.ok h)) :
    Inv h (slotNumbers (entriesOf entryNr)) []
      ∧ (∀ p, ¬ h.Occupied p) ∧ h.keyLen = key
      ∧ h.entries = entriesOf entryNr
      ∧ h.numBuckets = roundup2 (entriesOf entryNr) / 4 := by
  obtain ⟨r, hr, hfold⟩ := create_cases hc
  obtain ⟨hsmall, hfits, hfew, hbits⟩ := exactSize_bounds hsize
  obtain ⟨r', log, hfold', hr', hcap, hlog⟩ :=
    create_populates (D := D) hsmall (realSizeOf key entryNr) hr
  rw [hfold'] at hfold
  cases hfold
  -- all entries are zero
  have hnone : ∀ p : Pos, ¬ Tbl.Occupied
      { zeroedTbl (D := D) key (entriesOf entryNr)
          (roundup2 (entriesOf entryNr) / 4) (realSizeOf key entryNr) r with
        freeSlots := r', ringLog := log } p := fun p hp =>
    hp (Signatures.sig_eq_null.mpr ⟨rfl, rfl⟩)
  have hentry : (sizeofKey + key).toNat = 8 + key.toNat := by
    have hle : 8 + key.toNat
        ≤ ((entriesOf entryNr).toNat + 1) * (8 + key.toNat) :=
      Nat.le_mul_of_pos_left _ (Nat.succ_pos _)
    rw [UInt32.toNat_add, show sizeofKey.toNat = 8 from rfl,
      Nat.mod_eq_of_lt (by omega)]
  refine ⟨⟨?_, hr', ?_, fun c hc => .inl (hlog c hc)⟩, hnone, rfl, rfl, rfl⟩
  · rw [List.append_nil]
    refine ⟨⟨hbits, hfew, rfl, ?_, ?_⟩, nodup_slotNumbers _,
      fun x hx => mem_slotNumbers.mp hx, fun _ => rfl,
      fun p hp => absurd hp (hnone p), fun p hp => absurd hp (hnone p),
      fun p hp => absurd hp (hnone p), fun p hp => absurd hp (hnone p),
      fun p hp => absurd hp (hnone p), fun p _ hp => absurd hp (hnone p),
      fun x hx => .inl (mem_slotNumbers.mpr hx), fun p _ hp => absurd hp (hnone p)⟩
    · exact hentry
    · show _ * (sizeofKey + key).toNat < _
      rw [hentry]
      exact hfits
  · exact hcap

/-- Create succeeds when the system calls do, and not only for tables of a
size that fits in 32 bits. -/
theorem create_returns_of_small (hkey : 1 ≤ key.toNat) (hnr : 1 ≤ entryNr.toNat)
    (hsmall : (entriesOf entryNr).toNat + 1 < 2 ^ 29) :
    ∃ h : Tbl D, cuckoohashCreate (fun _ => true)
      { openOk := true, ftruncateOk := fun _ => true, mmapOk := fun _ => true }
      key entryNr = some (.ok h) := by
  obtain ⟨r, hr⟩ : ∃ r, ringbufferCreate
      { openOk := true, ftruncateOk := fun _ => true, mmapOk := fun _ => true }
      none (4 * (entriesOf entryNr + 1)) = some r := ⟨_, rfl⟩
  have hpos : ¬ (decide (key ≤ 0) || decide (entryNr ≤ 0)) = true := by
    rw [Bool.or_eq_true, decide_eq_true_eq, decide_eq_true_eq,
      UInt32.le_iff_toNat_le, UInt32.le_iff_toNat_le, UInt32.toNat_zero]
    omega
  unfold cuckoohashCreate
  simp only
  rw [if_neg hpos, if_neg (by simp), hr]
  obtain ⟨r', log, hfold, -⟩ :=
    create_populates (D := D) hsmall (realSizeOf key entryNr) hr
  exact ⟨_, congrArg (Option.map Except.ok) hfold⟩

/-- For tables of these sizes create comes back, with an error or a table. -/
theorem create_ne_none (hsmall : (entriesOf entryNr).toNat + 1 < 2 ^ 29) :
    cuckoohashCreate (D := D) mmapOk env key entryNr ≠ none := by
  unfold cuckoohashCreate
  simp only
  split
  · intro h; cases h
  · split
    · intro h; cases h
    · split
      next => intro h; cases h
      next r hr =>
        obtain ⟨r', log, hfold, -⟩ :=
          create_populates (D := D) hsmall (realSizeOf key entryNr) hr
        intro hnone
        rw [Option.map_eq_none_iff] at hnone
        exact Option.some_ne_none _ (hfold.symm.trans hnone)

theorem create_returns (hkey : 1 ≤ key.toNat) (hnr : 1 ≤ entryNr.toNat)
    (hsize : exactSize key entryNr < 2 ^ 32) :
    ∃ h : Tbl D, cuckoohashCreate (fun _ => true)
      { openOk := true, ftruncateOk := fun _ => true, mmapOk := fun _ => true }
      key entryNr = some (.ok h) :=
  create_returns_of_small hkey hnr (exactSize_bounds hsize).1

end Create

-- ===================================================== calls and their spec

/-- A call on a table. -/
inductive TblOp (D : Type) where
  | add (key : List UInt8) (data : D)
  | del (key : List UInt8)
  | lookup (key : List UInt8)

/-- The key of a call. -/
def TblOp.key : TblOp D → List UInt8
  | .add key _ => key
  | .del key => key
  | .lookup key => key

/-- What a call returns: the code, and for lookup the datum it stored. -/
inductive TblRet (D : Type) where
  | code (ret : Int)
  | found (ret : Int) (data : Option D)

/-- Make one call; `none` when it does not return. -/
def tblExec (h : Tbl D) : TblOp D → Option (Tbl D × TblRet D)
  | .add key data =>
      (cuckoohashAddKeyData h key data).map fun r => (r.1, .code r.2)
  | .del key => (cuckoohashDelKey h key).map fun r => (r.1, .code r.2)
  | .lookup key =>
      let r := cuckoohashLookupData h key
      some (h, .found r.1 r.2)

/-- A finite map from keys to data, as add, delete and lookup use it. -/
inductive MapStep : (List UInt8 → Option D) → TblOp D → TblRet D →
    (List UInt8 → Option D) → Prop
  | add (m : List UInt8 → Option D) (k : List UInt8) (d : D) :
      MapStep m (.add k d) (.code 0) (Function.update m k (some d))
  | refuse (m : List UInt8 → Option D) (k : List UInt8) (d : D) :
      MapStep m (.add k d) (.code (-ENOSPC)) m
  | del {m : List UInt8 → Option D} {k : List UInt8} {d : D} {n : Int} :
      m k = some d → 0 ≤ n →
      MapStep m (.del k) (.code n) (Function.update m k none)
  | delAbsent {m : List UInt8 → Option D} {k : List UInt8} :
      m k = none → MapStep m (.del k) (.code (-ENOENT)) m
  | lookup {m : List UInt8 → Option D} {k : List UInt8} {d : D} {n : Int} :
      m k = some d → 0 ≤ n → MapStep m (.lookup k) (.found n (some d)) m
  | lookupAbsent {m : List UInt8 → Option D} {k : List UInt8} :
      m k = none → MapStep m (.lookup k) (.found (-ENOENT) none) m

/-- The table stands for a map. -/
def Represents (h : Tbl D) (m : List UInt8 → Option D) : Prop :=
  ∀ k d, m k = some d ↔ h.Binds k d

theorem Represents.present {h : Tbl D} {m : List UInt8 → Option D}
    (hr : Represents h m) {p : Pos} (hp : h.Occupied p) :
    m (h.key p) = some (h.datum p) :=
  (hr _ _).mpr ⟨p, hp, rfl, rfl⟩

theorem Represents.absent {h : Tbl D} {m : List UInt8 → Option D}
    (hr : Represents h m) {k : List UInt8}
    (hno : ∀ p, h.Occupied p → h.key p ≠ k) : m k = none := by
  cases hm : m k with
  | none => rfl
  | some d =>
      obtain ⟨p, hp, hk, -⟩ := (hr k d).mp hm
      exact absurd hk (hno p hp)

/-- Every table whose keys are in one entry each stands for one. -/
theorem Core.represents {h : Tbl D} {rest : List UInt32} (hc : Core h rest) :
    ∃ m, Represents h m := by
  classical
  refine ⟨fun k => if hb : ∃ d, h.Binds k d then some hb.choose else none,
    fun k d => ?_⟩
  simp only
  split
  next hb =>
    rw [Option.some.injEq]
    constructor
    · intro heq
      rw [← heq]
      exact hb.choose_spec
    · intro hd
      exact hc.binds_unique hb.choose_spec hd
  next hb => exact iff_of_false nofun fun hd => hb ⟨d, hd⟩

/-- Each call returns, and what it does is a step of the map. -/
theorem tblExec_simulates {h : Tbl D} {free : List UInt32}
    {m : List UInt8 → Option D} (hi : Inv h free []) (hr : Represents h m)
    (op : TblOp D) (hlen : op.key.length = h.keyLen.toNat) :
    ∃ h' ret m', tblExec h op = some (h', ret) ∧ MapStep m op ret m'
      ∧ (∃ free', Inv h' free' []) ∧ Represents h' m'
      ∧ h'.header = h.header := by
  cases op with
  | add key data =>
      obtain ⟨h', ret, hadd, hi', hh, ⟨rfl, hb⟩ | ⟨rfl, hb⟩⟩ :=
        @addKey_spec _ h free hi key hlen data
      · refine ⟨h', _, _, by rw [tblExec, hadd]; rfl, .add m key data, hi',
          fun k d => ?_, hh⟩
        rw [hb k d]
        by_cases hk : k = key
        · rw [hk, Function.update_self, if_pos rfl, Option.some.injEq]
          exact eq_comm
        · rw [Function.update_of_ne hk, if_neg hk]
          exact hr k d
      · exact ⟨h', _, _, by rw [tblExec, hadd]; rfl, .refuse m key data, hi',
          fun k d => (hr k d).trans (hb k d).symm, hh⟩
  | del key =>
      by_cases hp : ∃ p, h.Occupied p ∧ h.key p = key
      · obtain ⟨p, hp, hk⟩ := hp
        have hused := (hi.core.used p hp).1
        obtain ⟨h', hdel, hi', hcl⟩ := delKey_present hi hp hk
        refine ⟨h', _, _, by rw [tblExec, hdel]; rfl,
          .del (hk ▸ hr.present hp) (by omega), hi', fun k d => ?_, hcl.same.header⟩
        rw [hcl.binds hi.core hp k d, hk]
        by_cases hkk : k = key
        · rw [hkk, Function.update_self]
          exact iff_of_false nofun (fun hcon => hcon.1 rfl)
        · rw [Function.update_of_ne hkk, and_iff_right hkk]
          exact hr k d
      · have hno : ∀ p, h.Occupied p → h.key p ≠ key :=
          fun p hp' hk => hp ⟨p, hp', hk⟩
        exact ⟨h, _, _, by rw [tblExec, delKey_absent hno]; rfl,
          .delAbsent (hr.absent hno), ⟨free, hi⟩, hr, rfl⟩
  | lookup key =>
      by_cases hp : ∃ p, h.Occupied p ∧ h.key p = key
      · obtain ⟨p, hp, hk⟩ := hp
        have hused := (hi.core.used p hp).1
        exact ⟨h, _, _, by rw [tblExec, lookup_present hi.core hp hk],
          .lookup (hk ▸ hr.present hp) (by omega), ⟨free, hi⟩, hr, rfl⟩
      · have hno : ∀ p, h.Occupied p → h.key p ≠ key :=
          fun p hp' hk => hp ⟨p, hp', hk⟩
        exact ⟨h, _, _, by rw [tblExec, lookup_absent hno],
          .lookupAbsent (hr.absent hno), ⟨free, hi⟩, hr, rfl⟩

-- =============================================================== whole runs

/-- Every run from a table between two calls stays between calls and follows
the map. -/
theorem trace_inv {h : Tbl D} {free : List UInt32} {m : List UInt8 → Option D}
    (hi : Inv h free []) (hr : Represents h m) {ops : List (TblOp D)}
    (hkeys : ∀ op ∈ ops, op.key.length = h.keyLen.toNat) :
    ∃ h' rets m', Lts.trace tblExec h ops = some (h', rets)
      ∧ Lts.SpecRun MapStep m ops rets m'
      ∧ (∃ free', Inv h' free' []) ∧ Represents h' m'
      ∧ h'.header = h.header := by
  obtain ⟨h', rets, m', htrace, hrun, hI, hR, hH⟩ :=
    Lts.trace_simulates
      (R := fun (h' : Tbl D) m' => (∃ free', Inv h' free' [])
        ∧ Represents h' m' ∧ h'.header = h.header)
      (V := fun op : TblOp D => op.key.length = h.keyLen.toNat)
      (fun op hR hop => by
        obtain ⟨⟨free', hi'⟩, hr', hh⟩ := hR
        rw [← header_keyLen hh] at hop
        obtain ⟨h'', ret, m'', hexec, hstep, hi'', hr'', hh'⟩ :=
          tblExec_simulates hi' hr' op hop
        exact ⟨h'', ret, m'', hexec, hstep, hi'', hr'', hh'.trans hh⟩)
      ⟨⟨free, hi⟩, hr, rfl⟩ hkeys
  exact ⟨h', rets, m', htrace, hrun, hI, hR, hH⟩

section Runs

variable [Inhabited D] {mmapOk : UInt32 → Bool} {env : CreateEnv}
  {key entryNr : UInt32} {h₀ : Tbl D}

/-- In particular every run from a created table. -/
theorem trace_map
    (hc : cuckoohashCreate mmapOk env key entryNr = some (.ok h₀))
    (hsize : exactSize key entryNr < 2 ^ 32) {ops : List (TblOp D)}
    (hkeys : ∀ op ∈ ops, op.key.length = key.toNat) :
    ∃ h rets m, Lts.trace tblExec h₀ ops = some (h, rets)
      ∧ Lts.SpecRun MapStep (fun _ => none) ops rets m
      ∧ (∃ free, Inv h free []) ∧ Represents h m ∧ h.header = h₀.header := by
  obtain ⟨hi, hnone, hlen, -⟩ := create_inv hsize hc
  have hinit : Represents h₀ fun _ => none := fun k d =>
    iff_of_false (fun hk => by cases hk) (fun ⟨p, hp, _⟩ => hnone p hp)
  exact trace_inv hi hinit fun op hop => by rw [hlen]; exact hkeys op hop

/-- A table that calls have made of a created one. -/
def Tbl.Reachable (h : Tbl D) : Prop :=
  ∃ mmapOk env key entryNr h₀ ops rets,
    cuckoohashCreate mmapOk env key entryNr = some (.ok h₀)
      ∧ exactSize key entryNr < 2 ^ 32
      ∧ (∀ op ∈ ops, op.key.length = key.toNat)
      ∧ Lts.trace tblExec h₀ ops = some (h, rets)

theorem Tbl.Reachable.inv {h : Tbl D} (hr : h.Reachable) : ∃ free, Inv h free [] := by
  obtain ⟨mmapOk, env, key, entryNr, h₀, ops, rets, hc, hsize, hkeys, htrace⟩ := hr
  obtain ⟨h', rets', -, htrace', -, hi, -⟩ := trace_map hc hsize hkeys
  rw [htrace, Option.some.injEq, Prod.mk.injEq] at htrace'
  rw [htrace'.1]
  exact hi

/-- The table implements a finite map. From a created table every sequence
of adds, deletes and lookups returns, and what it returns is a run of the
map; at the end a lookup of any key finds what the map holds for it, and no
key is in two entries. -/
theorem cuckoohash_map
    (hc : cuckoohashCreate mmapOk env key entryNr = some (.ok h₀))
    (hsize : exactSize key entryNr < 2 ^ 32) {ops : List (TblOp D)}
    (hkeys : ∀ op ∈ ops, op.key.length = key.toNat) :
    ∃ h rets m, Lts.trace tblExec h₀ ops = some (h, rets)
      ∧ Lts.SpecRun MapStep (fun _ => none) ops rets m
      ∧ (∀ k d, m k = some d →
          0 ≤ (cuckoohashLookupData h k).1
            ∧ (cuckoohashLookupData h k).2 = some d)
      ∧ (∀ k, m k = none → cuckoohashLookupData h k = (-ENOENT, none))
      ∧ ∀ p q, h.Occupied p → h.Occupied q → h.key p = h.key q → p = q := by
  obtain ⟨h, rets, m, htrace, hrun, ⟨free, hi⟩, hr, -⟩ := trace_map hc hsize hkeys
  refine ⟨h, rets, m, htrace, hrun, fun k d hk => ?_, fun k hk => ?_,
    hi.core.distinct⟩
  · obtain ⟨p, hp, hpk, hpd⟩ := (hr k d).mp hk
    have hused := (hi.core.used p hp).1
    rw [lookup_present hi.core hp hpk, hpd]
    exact ⟨by omega, rfl⟩
  · refine lookup_absent fun p hp hpk => ?_
    have hpres := hr.present hp
    rw [hpk, hk] at hpres
    cases hpres

/-- Two adds, a delete and two lookups on a table of eight entries. -/
def eightRun : List (TblOp Nat) :=
  [.add [1] 10, .add [2] 20, .del [1], .lookup [1], .lookup [2]]

theorem cuckoohash_map_eight :
    ∃ h₀ h rets m, cuckoohashCreate (fun _ => true)
        { openOk := true, ftruncateOk := fun _ => true
          mmapOk := fun _ => true } 1 8 = some (.ok h₀)
      ∧ Lts.trace tblExec h₀ eightRun = some (h, rets)
      ∧ Lts.SpecRun MapStep (fun _ => none) eightRun rets m
      ∧ ∀ k, m k = none → cuckoohashLookupData h k = (-ENOENT, none) := by
  have hsize : exactSize 1 8 < 2 ^ 32 := by decide
  obtain ⟨h₀, hc⟩ := create_returns (D := Nat) (by decide) (by decide) hsize
  have hkeys : ∀ op ∈ eightRun, op.key.length = (1 : UInt32).toNat := by decide
  obtain ⟨h, rets, m, htrace, hrun, -, habsent, -⟩ :=
    cuckoohash_map hc hsize hkeys
  exact ⟨h₀, h, rets, m, hc, htrace, hrun, habsent⟩

/-- The slot numbers of the non-empty entries, bucket by bucket. -/
def Tbl.usedSlots (h : Tbl D) : List UInt32 :=
  ((positions h.numBuckets.toNat).filter fun p => h.buckets.Occupied p).map
    h.buckets.idx

omit [Inhabited D] in
/-- A non-empty entry is one of the table's positions. -/
theorem Core.mem_positions {h : Tbl D} {rest : List UInt32} (hc : Core h rest)
    {p : Pos} (hp : h.Occupied p) : p ∈ positions h.numBuckets.toNat := by
  have hlt := h.numBuckets.toNat_lt
  obtain ⟨k, hk⟩ := hc.shape.bits
  have hpos : 0 < h.numBuckets.toNat := hk ▸ Nat.two_pow_pos k
  rw [Cuckoo.mem_positions (by omega), hc.home p hp]
  have hle := Bits.and_le_right (h.buckets.sigs p).current h.bucketBitmask
  rw [hc.shape.mask, Bits.toNat_sub_one hpos] at hle
  rw [hc.shape.mask]
  omega

omit [Inhabited D] in
/-- Between two calls the ring and the entries share out all the slots. -/
theorem Inv.slots_perm {h : Tbl D} {free : List UInt32} (hi : Inv h free []) :
    (free ++ h.usedSlots).Perm (slotNumbers h.entries) := by
  have hc := hi.core
  rw [List.append_nil] at hc
  have hmem : ∀ x, x ∈ h.usedSlots ↔ ∃ p, h.Occupied p ∧ h.buckets.idx p = x := by
    intro x
    unfold Tbl.usedSlots
    rw [List.mem_map]
    refine exists_congr fun p => and_congr_left fun _ => ?_
    rw [List.mem_filter, decide_eq_true_eq]
    exact ⟨fun hp => hp.2, fun hp => ⟨hc.mem_positions hp, hp⟩⟩
  have hused : h.usedSlots.Nodup := by
    refine List.Nodup.map_on ?_ ((nodup_positions ?_).filter _)
    · intro p hp q hq heq
      rw [List.mem_filter, decide_eq_true_eq] at hp hq
      exact hc.inj p q hp.2 hq.2 heq
    · have := h.numBuckets.toNat_lt
      omega
  refine (List.perm_ext_iff_of_nodup ?_ ?_).mpr fun x => ?_
  · refine List.nodup_append.mpr ⟨hc.nodup, hused, fun x hx y hy he => ?_⟩
    obtain ⟨p, hp, hpx⟩ := (hmem y).mp hy
    exact hc.apart p hp (by rw [hpx, ← he]; exact hx)
  · exact nodup_slotNumbers _
  · rw [List.mem_append, hmem, mem_slotNumbers]
    constructor
    · intro hor
      rcases hor with hx | ⟨p, hp, rfl⟩
      · exact hc.slots x hx
      · exact hc.used p hp
    · intro hx
      exact hc.cover x hx

/-- No slot is lost or given out twice. After every sequence of calls on a
created table the ring holds whole slot numbers, these and the ones of the
non-empty entries are 1 to `entries`, each once, slot 0 is none of them, and
every put on the ring so far was taken in full and every get found a whole
number or nothing. -/
theorem free_slots_exact
    (hc : cuckoohashCreate mmapOk env key entryNr = some (.ok h₀))
    (hsize : exactSize key entryNr < 2 ^ 32) {ops : List (TblOp D)}
    (hkeys : ∀ op ∈ ops, op.key.length = key.toNat) :
    ∃ h rets free, Lts.trace tblExec h₀ ops = some (h, rets)
      ∧ h.freeSlots.contents = free.flatMap itemBytes
      ∧ (free ++ h.usedSlots).Perm (slotNumbers h₀.entries)
      ∧ 0 ∉ free ++ h.usedSlots
      ∧ ∀ c ∈ h.ringLog, c = .put 4 ∨ c = .get 4 ∨ c = .get 0 := by
  obtain ⟨h, rets, m, htrace, -, ⟨free, hi⟩, -, hh⟩ := trace_map hc hsize hkeys
  have hperm := hi.slots_perm
  rw [header_entries hh] at hperm
  refine ⟨h, rets, free, htrace, hi.ring.contents_eq, hperm, ?_, hi.log⟩
  rw [hperm.mem_iff, mem_slotNumbers]
  exact fun hzero => absurd hzero.1 (by decide)

theorem free_slots_exact_eight :
    ∃ h₀ h rets free, cuckoohashCreate (fun _ => true)
        { openOk := true, ftruncateOk := fun _ => true
          mmapOk := fun _ => true } 1 8 = some (.ok h₀)
      ∧ Lts.trace tblExec h₀ eightRun = some (h, rets)
      ∧ (free ++ h.usedSlots).Perm (slotNumbers h₀.entries) := by
  have hsize : exactSize 1 8 < 2 ^ 32 := by decide
  obtain ⟨h₀, hc⟩ := create_returns (D := Nat) (by decide) (by decide) hsize
  have hkeys : ∀ op ∈ eightRun, op.key.length = (1 : UInt32).toNat := by decide
  obtain ⟨h, rets, free, htrace, -, hperm, -⟩ := free_slots_exact hc hsize hkeys
  exact ⟨h₀, h, rets, free, hc, htrace, hperm⟩

end Runs

-- ================================================ a table of eight entries

/-- A table of eight entries on which calls have been made. -/
def tableAfter (ops : List (TblOp Nat)) : Option (Tbl Nat) :=
  match cuckoohashCreate (fun _ => true)
      { openOk := true, ftruncateOk := fun _ => true
        mmapOk := fun _ => true } 1 8 with
  | some (.ok h) => (Lts.trace tblExec h ops).map (·.1)
  | _ => none

/-- Calls with keys of one byte on a table of eight entries. -/
theorem tableAfter_reachable (ops : List (TblOp Nat))
    (hkeys : ∀ op ∈ ops, op.key.length = (1 : UInt32).toNat) :
    ∃ h, tableAfter ops = some h ∧ h.Reachable ∧ h.keyLen = 1 := by
  have hsize : exactSize 1 8 < 2 ^ 32 := by decide
  obtain ⟨h₀, hc⟩ := create_returns (D := Nat) (by decide) (by decide) hsize
  obtain ⟨h, rets, -, htrace, -, -, -, hh⟩ := trace_map hc hsize hkeys
  refine ⟨h, ?_, ⟨_, _, 1, 8, h₀, ops, rets, hc, hsize, hkeys, htrace⟩, ?_⟩
  · simp only [tableAfter, hc, htrace, Option.map_some]
  · rw [header_keyLen hh, (create_inv hsize hc).2.2.1]

/-- Four keys both of whose buckets are bucket 0. -/
def oneBucket : List (TblOp Nat) :=
  [.add [0] 0, .add [1] 10, .add [8] 80, .add [9] 90]

end PktSender.Cuckoo
