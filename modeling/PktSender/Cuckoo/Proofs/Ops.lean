/-
One specification for each operation of the cuckoo table: from a table
between two calls (`Inv h free []`) the operation returns, leaves a table
between two calls, and does to the bindings what its name says.
-/
import PktSender.Cuckoo.Proofs.Entries

namespace PktSender.Cuckoo

open PktSender.Ring PktSender.Hash LittleEndian

variable {D : Type} {h : Tbl D} {free : List UInt32}

-- ============================================================ the free slots

/-- The table after a call on its ring. -/
def Tbl.withRing (h : Tbl D) (r : Ringbuffer) (c : SlotCall) : Tbl D :=
  { h with freeSlots := r, ringLog := h.ringLog ++ [c] }

/-- Putting a slot number on a ring with room for it. -/
theorem putSlot_ring {items : List UInt32} (hr : HoldsItems h.freeSlots items)
    (x : UInt32) (hroom : 4 * items.length + 4 < h.freeSlots.dataSize.toNat) :
    ∃ r, putSlot h x = some (h.withRing r (.put 4))
      ∧ HoldsItems r (items ++ [x]) ∧ r.dataSize = h.freeSlots.dataSize := by
  obtain ⟨r, hput, hr', hsize⟩ := put_item hr x hroom
  refine ⟨r, ?_, hr', hsize⟩
  show (ringbufferPut h.freeSlots (itemBuffer x) 4).map _ = _
  rw [hput]
  rfl

namespace Inv

theorem log_append {c : SlotCall}
    (hlog : ∀ c ∈ h.ringLog, c = .put 4 ∨ c = .get 4 ∨ c = .get 0)
    (hc : c = .put 4 ∨ c = .get 4 ∨ c = .get 0) :
    ∀ c' ∈ h.ringLog ++ [c], c' = .put 4 ∨ c' = .get 4 ∨ c' = .get 0 := by
  intro c' hc'
  rcases List.mem_append.mp hc' with hc' | hc'
  · exact hlog c' hc'
  · exact List.mem_singleton.mp hc' ▸ hc

/-- No slot is free. -/
theorem getSlot_nil (hi : Inv h [] []) :
    ∃ r x, getSlot h = (h.withRing r (.get 0), 0, x)
      ∧ Inv (h.withRing r (.get 0)) [] [] := by
  obtain ⟨r, hget, hr, hsize⟩ := get_item_nil hi.ring
  refine ⟨r, UInt32.ofNat (ofLeBytes []), by rw [getSlot, hget]; rfl,
    hi.core.setRing _ _, hr, ?_, ?_⟩
  · show _ ≤ r.dataSize.toNat
    rw [hsize]
    exact hi.capacity
  · exact log_append hi.log (.inr (.inr rfl))

/-- The oldest free slot comes to hand. -/
theorem getSlot_cons {f : UInt32} (hi : Inv h (f :: free) []) :
    ∃ r, getSlot h = (h.withRing r (.get 4), 4, f)
      ∧ Inv (h.withRing r (.get 4)) free [f] := by
  obtain ⟨r, hget, hr, hsize⟩ := get_item_cons hi.ring
  refine ⟨r, ?_, (hi.core.perm ?_).setRing _ _, hr, ?_, ?_⟩
  · rw [getSlot, hget]
    exact congrArg (fun x => (_, _, x)) (ofLeBytes_itemBytes f)
  · rw [List.append_nil]
    exact (List.perm_append_singleton f free).symm
  · show _ ≤ r.dataSize.toNat
    rw [hsize]
    exact hi.capacity
  · exact log_append hi.log (.inr (.inl rfl))

/-- A slot in hand is one of the table's. -/
theorem held {f : UInt32} (hi : Inv h free [f]) : h.IsSlot f :=
  hi.core.slots f (List.mem_append_right _ (List.mem_singleton.mpr rfl))

/-- A slot in hand goes back: there is always room for it. -/
theorem putSlot {f : UInt32} (hi : Inv h free [f]) :
    ∃ r, Cuckoo.putSlot h f = some (h.withRing r (.put 4))
      ∧ Inv (h.withRing r (.put 4)) (free ++ [f]) [] := by
  have hle := hi.core.length_le
  have hcap := hi.capacity
  rw [List.length_append, List.length_singleton] at hle
  obtain ⟨r, hput, hr, hsize⟩ := putSlot_ring hi.ring f (by omega)
  refine ⟨r, hput, (hi.core.perm ?_).setRing _ _, hr, ?_, ?_⟩
  · rw [List.append_nil]
  · show _ ≤ r.dataSize.toNat
    rw [hsize]
    exact hi.capacity
  · exact log_append hi.log (.inl rfl)

end Inv

-- ================================================================ the scans

/-- A slot number less the dummy one, as an `int`. -/
theorem Core.ret_eq {rest : List UInt32} (hc : Core h rest) {x : UInt32}
    (hx : h.IsSlot x) : toInt32 (x - 1) = (x.toNat : Int) - 1 := by
  have hfits := hc.shape.fits
  have hsize := hc.shape.entrySize
  have hle : (h.entries.toNat + 1) * 8
      ≤ (h.entries.toNat + 1) * h.keyEntrySize.toNat :=
    Nat.mul_le_mul_left _ (by omega)
  obtain ⟨h1, h2⟩ := hx
  have hsub : (x - 1).toNat = x.toNat - 1 := Bits.toNat_sub_one h1
  unfold toInt32
  rw [hsub, if_pos (by omega)]
  omega

theorem findEntry_some {key : List UInt8} {b current alt : UInt32} {i : Fin 4}
    (hf : findEntry h key b current alt = some i) :
    h.buckets.sigs (b, i) = { current := current, alt := alt }
      ∧ h.key (b, i) = key := by
  have hp := List.find?_some hf
  simp only [Bool.and_eq_true, beq_iff_eq] at hp
  obtain ⟨⟨hcur, halt⟩, hkey⟩ := hp
  exact ⟨by rw [← hcur, ← halt]; rfl, hkey.symm⟩

theorem findEntry_none {key : List UInt8} {b current alt : UInt32}
    (hf : findEntry h key b current alt = none) (i : Fin 4)
    (hs : h.buckets.sigs (b, i) = { current := current, alt := alt }) :
    h.key (b, i) ≠ key := by
  intro hkey
  refine List.find?_eq_none.mp hf i (mem_bucketEntries i) ?_
  simp only [Bool.and_eq_true, beq_iff_eq]
  exact ⟨⟨congrArg Signatures.current hs, congrArg Signatures.alt hs⟩, hkey.symm⟩

theorem findCurrent_some {key : List UInt8} {b current : UInt32} {i : Fin 4}
    (hf : findCurrent h key b current = some i) :
    (h.buckets.sigs (b, i)).current = current ∧ h.Occupied (b, i)
      ∧ h.key (b, i) = key := by
  have hp := List.find?_some hf
  simp only [Bool.and_eq_true, beq_iff_eq, bne_iff_ne] at hp
  obtain ⟨⟨hcur, hocc⟩, hkey⟩ := hp
  exact ⟨hcur, hocc, hkey.symm⟩

theorem findCurrent_none {key : List UInt8} {b current : UInt32}
    (hf : findCurrent h key b current = none) (i : Fin 4)
    (hcur : (h.buckets.sigs (b, i)).current = current)
    (hocc : h.Occupied (b, i)) : h.key (b, i) ≠ key := by
  intro hkey
  refine List.find?_eq_none.mp hf i (mem_bucketEntries i) ?_
  simp only [Bool.and_eq_true, beq_iff_eq, bne_iff_ne]
  exact ⟨⟨hcur, hocc⟩, hkey.symm⟩

/-- An entry with the two hashes of a key, either way round, is not empty. -/
theorem not_both_of_null {e : Signatures} (hnull : e.sig = nullSignature) (s : UInt32) :
    ¬ (e.current = s ∧ e.alt = hashSecondary s)
      ∧ ¬ (e.current = hashSecondary s ∧ e.alt = s) := by
  obtain ⟨hcur, halt⟩ := Signatures.sig_eq_null.mp hnull
  rw [hcur, halt]
  refine ⟨?_, ?_⟩
  · rintro ⟨rfl, hs⟩
    exact hashSecondary_ne 0 hs.symm
  · rintro ⟨hs, rfl⟩
    exact hashSecondary_ne 0 hs.symm

/-- The two hashes of a key differ, so together they are never the signature
of an empty entry: the comparisons of both, which do not ask for one, fail at
an empty entry, and no scan of an operation stops at one. -/
theorem null_never_matched (s : UInt32) :
    hashSecondary s ≠ s
      ∧ ({ current := s, alt := hashSecondary s } : Signatures).sig ≠ nullSignature
      ∧ ({ current := hashSecondary s, alt := s } : Signatures).sig ≠ nullSignature
      ∧ ∀ {D : Type} (h : Tbl D) (key : List UInt8) (b : UInt32) (i : Fin 4),
          ((h.buckets b).signatures i).sig = nullSignature →
          ¬ (((h.buckets b).signatures i).current = s
              ∧ ((h.buckets b).signatures i).alt = hashSecondary s)
            ∧ ¬ (((h.buckets b).signatures i).current = hashSecondary s
              ∧ ((h.buckets b).signatures i).alt = s)
            ∧ findEntry h key b s (hashSecondary s) ≠ some i
            ∧ findEntry h key b (hashSecondary s) s ≠ some i
            ∧ ∀ current, findCurrent h key b current ≠ some i := by
  refine ⟨hashSecondary_ne s, sigPair_ne_null s, swap_sigPair_ne_null s, ?_⟩
  intro D h key b i hnull
  obtain ⟨hprimary, hsecondary⟩ := not_both_of_null hnull s
  refine ⟨hprimary, hsecondary, fun hf => ?_, fun hf => ?_, fun current hf => ?_⟩
  · have hs := (findEntry_some hf).1
    exact hprimary ⟨congrArg Signatures.current hs, congrArg Signatures.alt hs⟩
  · have hs := (findEntry_some hf).1
    exact hsecondary ⟨congrArg Signatures.current hs, congrArg Signatures.alt hs⟩
  · exact (findCurrent_some hf).2.1 hnull

/-- An entry with the key is in one of the key's two buckets, with the pair
of hashes that belongs there. -/
theorem Core.entry_of_key {rest : List UInt32} (hc : Core h rest)
    {key : List UInt8} {p : Pos} (hp : h.Occupied p) (hk : h.key p = key) :
    (p.1 = hash h key &&& h.bucketBitmask
        ∧ h.buckets.sigs p = sigPair (hash h key))
      ∨ (p.1 = hashSecondary (hash h key) &&& h.bucketBitmask
        ∧ h.buckets.sigs p = (sigPair (hash h key)).swap) := by
  have hhome := hc.home p hp
  have hpair := hc.pair p hp
  rw [hk] at hpair
  rcases hpair with hs | hs
  · rw [hs] at hhome
    exact .inl ⟨hhome, hs⟩
  · rw [hs] at hhome
    exact .inr ⟨hhome, hs⟩

/-- A key both scans of add miss is not in the table. -/
theorem Core.absent {rest : List UInt32} (hc : Core h rest) {key : List UInt8}
    (h1 : findEntry h key (hash h key &&& h.bucketBitmask) (hash h key)
      (hashSecondary (hash h key)) = none)
    (h2 : findEntry h key (hashSecondary (hash h key) &&& h.bucketBitmask)
      (hashSecondary (hash h key)) (hash h key) = none)
    (p : Pos) (hp : h.Occupied p) : h.key p ≠ key := by
  intro hk
  obtain ⟨b, i⟩ := p
  rcases hc.entry_of_key hp hk with ⟨hb, hs⟩ | ⟨hb, hs⟩
  · obtain rfl : b = _ := hb
    exact findEntry_none h1 i hs hk
  · obtain rfl : b = _ := hb
    exact findEntry_none h2 i hs hk

/-- The scan of the primary bucket finds a key there; one in its secondary
bucket it does not see. -/
theorem Core.findCurrent_present {rest : List UInt32} (hc : Core h rest)
    {key : List UInt8} {p : Pos} (hp : h.Occupied p) (hk : h.key p = key) :
    (p.1 = hash h key &&& h.bucketBitmask
        ∧ findCurrent h key (hash h key &&& h.bucketBitmask) (hash h key) = some p.2)
      ∨ (p.1 = hashSecondary (hash h key) &&& h.bucketBitmask
        ∧ h.buckets.sigs p = (sigPair (hash h key)).swap
        ∧ findCurrent h key (hash h key &&& h.bucketBitmask) (hash h key) = none) := by
  cases hf : findCurrent h key (hash h key &&& h.bucketBitmask) (hash h key) with
  | some i =>
      obtain ⟨-, hocc, hki⟩ := findCurrent_some hf
      obtain rfl := hc.distinct _ p hocc hp (hki.trans hk.symm)
      exact .inl ⟨rfl, rfl⟩
  | none =>
      rcases hc.entry_of_key hp hk with ⟨hb, hs⟩ | ⟨hb, hs⟩
      · obtain ⟨b, i⟩ := p
        obtain rfl : b = _ := hb
        exact absurd hk
          (findCurrent_none hf i (congrArg Signatures.current hs) hp)
      · exact .inr ⟨hb, hs, rfl⟩

theorem findCurrent_absent {key : List UInt8}
    (hno : ∀ p, h.Occupied p → h.key p ≠ key) (b current : UInt32) :
    findCurrent h key b current = none := by
  cases hf : findCurrent h key b current with
  | none => rfl
  | some i =>
      obtain ⟨-, hocc, hki⟩ := findCurrent_some hf
      exact absurd hki (hno _ hocc)

-- ================================================================== lookup

/-- A key that is in the table is found, with its slot and its datum. -/
theorem lookup_present {rest : List UInt32} (hc : Core h rest)
    {key : List UInt8} {p : Pos} (hp : h.Occupied p) (hk : h.key p = key) :
    cuckoohashLookupData h key
      = (((h.buckets.idx p).toNat : Int) - 1, some (h.datum p)) := by
  have hret : lookupResult h p.1 p.2
      = (((h.buckets.idx p).toNat : Int) - 1, some (h.datum p)) :=
    congrArg (·, some (h.datum p)) (hc.ret_eq (hc.used p hp))
  unfold cuckoohashLookupData lookupWithHash lookupPrimary scanPrimary
  rcases hc.findCurrent_present hp hk with ⟨hb, hf⟩ | ⟨hb, hs, hf⟩
  · rw [hf, ← hb]
    exact hret
  · obtain ⟨b, i⟩ := p
    obtain rfl : b = _ := hb
    rw [hf, Option.map_none]
    unfold lookupSecondary scanSecondary
    cases hf' : findEntry h key
      (hashSecondary (hash h key) &&& h.bucketBitmask)
      (hashSecondary (hash h key)) (hash h key) with
    | none => exact absurd hk (findEntry_none hf' i hs)
    | some j =>
        obtain ⟨hsj, hkj⟩ := findEntry_some hf'
        have hocc : h.Occupied
            (hashSecondary (hash h key) &&& h.bucketBitmask, j) := by
          rw [Tbl.Occupied, Buckets.Occupied, hsj]
          exact swap_sigPair_ne_null (hash h key)
        obtain rfl : j = i :=
          (Prod.mk.inj (hc.distinct _ _ hocc hp (hkj.trans hk.symm))).2
        exact hret

/-- Any other key is not. -/
theorem lookup_absent {key : List UInt8}
    (hno : ∀ p, h.Occupied p → h.key p ≠ key) :
    cuckoohashLookupData h key = (-ENOENT, none) := by
  unfold cuckoohashLookupData lookupWithHash lookupPrimary scanPrimary
  rw [findCurrent_absent hno, Option.map_none]
  unfold lookupSecondary scanSecondary
  cases hf : findEntry h key
    (hashSecondary (hash h key) &&& h.bucketBitmask)
    (hashSecondary (hash h key)) (hash h key) with
  | none => rfl
  | some j =>
      obtain ⟨hsj, hkj⟩ := findEntry_some hf
      refine absurd hkj (hno _ ?_)
      rw [Tbl.Occupied, Buckets.Occupied, hsj]
      exact swap_sigPair_ne_null (hash h key)

-- ================================================================== delete

/-- Emptying an entry and giving its slot back. -/
theorem dropEntry_spec (hi : Inv h free []) {b : UInt32} {i : Fin 4}
    (hocc : h.Occupied (b, i)) :
    ∃ h', dropEntry h b i
        = some (h', ((h.buckets.idx (b, i)).toNat : Int) - 1)
      ∧ Inv h' (free ++ [h.buckets.idx (b, i)]) [] ∧ Cleared h h' (b, i) := by
  have hcore := hi.core
  rw [List.append_nil] at hcore
  have hcl : Cleared h _ (b, i) := Cleared.setSignatures b i
  have hi' : Inv { h with
      buckets := h.buckets.setSignatures b i { current := 0, alt := 0 } }
      free [h.buckets.idx (b, i)] :=
    ⟨hcl.core hcore hocc, hi.ring, hi.capacity, hi.log⟩
  obtain ⟨r, hput, hi''⟩ := hi'.putSlot
  refine ⟨_, ?_, hi'', ⟨⟨rfl, fun _ => rfl, hcl.same.flagAt⟩, hcl.sigs, hcl.idx⟩⟩
  have hret := hcore.ret_eq (hcore.used _ hocc)
  unfold dropEntry
  rw [show (h.buckets b).keyIdx i = h.buckets.idx (b, i) from rfl]
  simp only
  rw [hput, hret]
  rfl

/-- Deleting a key that is in the table empties its entry. -/
theorem delKey_present (hi : Inv h free []) {key : List UInt8} {p : Pos}
    (hp : h.Occupied p) (hk : h.key p = key) :
    ∃ h', cuckoohashDelKey h key
        = some (h', ((h.buckets.idx p).toNat : Int) - 1)
      ∧ (∃ free', Inv h' free' []) ∧ Cleared h h' p := by
  have hc := hi.core
  -- whichever scan stops, it stops at `p`
  have hdrop : ∃ h', dropEntry h p.1 p.2
        = some (h', ((h.buckets.idx p).toNat : Int) - 1)
      ∧ (∃ free', Inv h' free' []) ∧ Cleared h h' p := by
    obtain ⟨h', hd, hi', hcl⟩ := dropEntry_spec hi (b := p.1) (i := p.2) hp
    exact ⟨h', hd, ⟨_, hi'⟩, hcl⟩
  unfold cuckoohashDelKey delKeyWithHash scanPrimary
  rcases hc.findCurrent_present hp hk with ⟨hb, hf⟩ | ⟨hb, hs, hf⟩
  · simp only [hf]
    rw [← hb]
    exact hdrop
  · obtain ⟨b, i⟩ := p
    obtain rfl : b = _ := hb
    simp only [hf]
    cases hf' : findCurrent h key
      (hashSecondary (hash h key) &&& h.bucketBitmask)
      (hashSecondary (hash h key)) with
    | none =>
        exact absurd hk
          (findCurrent_none hf' i (congrArg Signatures.current hs) hp)
    | some j =>
        obtain ⟨-, hocc, hkj⟩ := findCurrent_some hf'
        obtain rfl : j = i :=
          (Prod.mk.inj (hc.distinct _ _ hocc hp (hkj.trans hk.symm))).2
        exact hdrop

/-- Deleting any other key changes nothing. -/
theorem delKey_absent {key : List UInt8}
    (hno : ∀ p, h.Occupied p → h.key p ≠ key) :
    cuckoohashDelKey h key = some (h, -ENOENT) := by
  unfold cuckoohashDelKey delKeyWithHash scanPrimary
  simp only [findCurrent_absent hno]

-- ===================================================================== add

/-- What an add that returns 0 does to the bindings. -/
def Tbl.BindsAfter (h h' : Tbl D) (key : List UInt8) (data : D) : Prop :=
  ∀ k d, h'.Binds k d ↔ if k = key then d = data else h.Binds k d

/-- What `__cuckoohash_add_key_with_hash` leaves behind when it returns
`ret`. -/
def Tbl.AddLeaves (h h' : Tbl D) (key : List UInt8) (data : D) (ret : Int) :
    Prop :=
  (∃ free, Inv h' free []) ∧ h'.header = h.header
    ∧ ((0 ≤ ret ∧ h.BindsAfter h' key data)
      ∨ (ret = -ENOSPC ∧ ∀ k d, h'.Binds k d ↔ h.Binds k d))

/-- The walk from the key's primary bucket, which is full, finds no place. -/
def Tbl.WalkFails (h : Tbl D) (key : List UInt8) : Prop :=
  h.buckets.Full (hash h key &&& h.bucketBitmask)
    ∧ ∃ bs e, makeSpaceBucket h.bucketBitmask (4 * (h.bucketBitmask.toNat + 1) + 1)
        h.buckets (hash h key &&& h.bucketBitmask) = some (bs, .error e)

/-- All that `__cuckoohash_add_key_with_hash` can do to a table that is
between two calls and has the slots `free` in its ring: the slots that are
free afterwards, the table and the value returned. -/
inductive AddOutcome (h : Tbl D) (key : List UInt8) (data : D) :
    List UInt32 → List UInt32 → Tbl D → Int → Prop
  /-- no slot is free -/
  | noSlot {h' : Tbl D} : h'.buckets = h.buckets →
      (∀ k d, h'.Binds k d ↔ h.Binds k d) → AddOutcome h key data [] [] h' (-ENOSPC)
  /-- the key is there -/
  | update {h' : Tbl D} {f : UInt32} {free : List UInt32} {p : Pos} :
      h.Occupied p → h.key p = key → h'.buckets = h.buckets →
      h.BindsAfter h' key data →
      AddOutcome h key data (f :: free) (free ++ [f]) h'
        (((h.buckets.idx p).toNat : Int) - 1)
  /-- the key is new and finds no place -/
  | refuse {h' : Tbl D} {f : UInt32} {free : List UInt32} :
      (∀ p, h.Occupied p → h.key p ≠ key) → h.WalkFails key →
      h'.buckets = h.buckets → (∀ k d, h'.Binds k d ↔ h.Binds k d) →
      AddOutcome h key data (f :: free) (free ++ [f]) h' (-ENOSPC)
  /-- the key is new and gets an entry -/
  | insert {h' : Tbl D} {f : UInt32} {free : List UInt32} :
      (∀ p, h.Occupied p → h.key p ≠ key) → 1 ≤ f.toNat →
      h.BindsAfter h' key data →
      AddOutcome h key data (f :: free) free h' ((f.toNat : Int) - 1)

/-- The key is there: its datum is replaced, the new slot goes back. -/
theorem updateEntry_spec {f : UInt32} (hi : Inv h free [f]) {b : UInt32}
    {i : Fin 4} (hocc : h.Occupied (b, i)) (data : D) :
    ∃ h', updateEntry h f b i data = some (h', ((h.buckets.idx (b, i)).toNat : Int) - 1)
      ∧ Inv h' (free ++ [f]) [] ∧ h'.header = h.header ∧ Keeps h h'
      ∧ h'.buckets = h.buckets ∧ h.BindsAfter h' (h.key (b, i)) data := by
  obtain ⟨r, hput, hi'⟩ := hi.putSlot
  have hret := hi.core.ret_eq (hi.core.used _ hocc)
  refine ⟨(h.withRing r (.put 4)).setDatum (b, i) data, ?_,
    ⟨hi'.core.setDatum data hocc, hi'.ring, hi'.capacity, hi'.log⟩, rfl, ?_, rfl,
    hi'.core.binds_setDatum data hocc⟩
  · unfold updateEntry
    rw [hput, ← hret]
    rfl
  · exact .of_buckets rfl fun p hp => (hi'.core.slot_setDatum hocc hp).1

/-- The key is new and its slot is filled: it gets an entry, or nothing
changes and the slot goes back. -/
theorem insertEntry_spec {f : UInt32} (hi : Inv h free [f])
    (hlen : (h.slot f).key.length = h.keyLen.toNat)
    (hnew : ∀ p, h.Occupied p → h.key p ≠ (h.slot f).key) :
    ∃ h' ret, insertEntry h (hash h (h.slot f).key &&& h.bucketBitmask)
        (hash h (h.slot f).key) (hashSecondary (hash h (h.slot f).key)) f
        = some (h', ret)
      ∧ h'.header = h.header ∧ Keeps h h'
      ∧ ((ret = (f.toNat : Int) - 1 ∧ Inv h' free []
          ∧ h.BindsAfter h' (h.slot f).key (h.slot f).pdata)
        ∨ (ret = -ENOSPC ∧ Inv h' (free ++ [f]) [] ∧ h.WalkFails (h.slot f).key
          ∧ h'.buckets = h.buckets ∧ ∀ k d, h'.Binds k d ↔ h.Binds k d)) := by
  have hret : toInt32 (f - 1) = (f.toNat : Int) - 1 :=
    hi.core.ret_eq hi.held
  have hlog := hi.log
  unfold insertEntry
  rw [hret]
  cases hfree : (h.buckets (hash h (h.slot f).key &&& h.bucketBitmask)).freeEntry with
  | some i =>
      have hempty := freeEntry_eq_some hfree
      have hfill : Filled h _ _ f :=
        Filled.setEntry f (hash h (h.slot f).key &&& h.bucketBitmask) i
      refine ⟨_, _, rfl, rfl, hfill.keeps hempty, .inl ⟨rfl,
        ⟨?_, hi.ring, hi.capacity, hlog⟩, hfill.binds hempty hnew⟩⟩
      rw [List.append_nil]
      exact hfill.core hi.core hempty rfl hlen hnew
  | none =>
      have hfull := freeEntry_eq_none.mp hfree
      obtain ⟨⟨bs, ret⟩, hcall⟩ : ∃ r, makeSpaceBucket h.bucketBitmask
          (4 * (h.bucketBitmask.toNat + 1) + 1) h.buckets
          (hash h (h.slot f).key &&& h.bucketBitmask) = some r :=
        makeSpaceBucket_returns (Bits.and_le_right _ _)
      obtain ⟨hflags, herr, hok⟩ := makeSpaceBucket_spec hfull hcall
      simp only
      rw [hcall]
      cases ret with
      | ok i =>
          obtain ⟨σ, hmoved, -⟩ := hok i rfl
          obtain ⟨hins, hbinds, hkeeps⟩ := hi.core.insert hmoved hflags rfl hlen hnew
          refine ⟨_, _, rfl, rfl, hkeeps, .inl ⟨rfl,
            ⟨?_, hi.ring, hi.capacity, hlog⟩, hbinds⟩⟩
          rw [List.append_nil]
          exact hins
      | error e =>
          obtain ⟨rfl, hsigs, hidx⟩ := herr e rfl
          obtain rfl := Buckets.ext_fields hsigs hidx hflags
          obtain ⟨r, hput, hi'⟩ := hi.putSlot
          refine ⟨h.withRing r (.put 4), -ENOSPC, ?_, rfl,
            .of_buckets rfl fun _ _ => rfl, .inr ⟨rfl, hi', ⟨hfull, _, _, hcall⟩, rfl,
              fun _ _ => Iff.rfl⟩⟩
          show (Cuckoo.putSlot h f).map (fun h => (h, -ENOSPC)) = _
          rw [hput]
          rfl

/-- The same for a key that is in no entry and a slot yet to be written. -/
theorem insertEntry_new {f : UInt32} (hi : Inv h free [f]) {key : List UInt8}
    (hlen : key.length = h.keyLen.toNat)
    (habsent : ∀ p, h.Occupied p → h.key p ≠ key) (data : D) :
    ∃ h' ret, insertEntry (h.setSlot f { pdata := data, key := key })
        (hash h key &&& h.bucketBitmask) (hash h key) (hashSecondary (hash h key)) f
        = some (h', ret)
      ∧ h'.header = h.header ∧ Keeps h h'
      ∧ ((ret = (f.toNat : Int) - 1 ∧ Inv h' free [] ∧ h.BindsAfter h' key data)
        ∨ (ret = -ENOSPC ∧ Inv h' (free ++ [f]) [] ∧ h.WalkFails key
          ∧ h'.buckets = h.buckets ∧ ∀ k d, h'.Binds k d ↔ h.Binds k d)) := by
  have hf : f ∈ free ++ [f] :=
    List.mem_append_right _ (List.mem_singleton.mpr rfl)
  have hslot : (h.setSlot f { pdata := data, key := key }).slot f
      = { pdata := data, key := key } := by
    rw [hi.core.slot_setSlot hi.held hi.held, if_pos rfl]
  have hi₂ : Inv (h.setSlot f { pdata := data, key := key }) free [f] :=
    ⟨hi.core.setSlot_rest _ hf, hi.ring, hi.capacity, hi.log⟩
  have hold : ∀ p, h.Occupied p →
      (h.setSlot f { pdata := data, key := key }).key p = h.key p := fun p hp =>
    congrArg KeySlot.key (hi.core.slot_setSlot_rest hf hp)
  have hspec := insertEntry_spec hi₂ (by rw [hslot]; exact hlen)
    (fun p hp => by
      rw [hslot, hold p hp]
      exact habsent p hp)
  rw [hslot] at hspec
  obtain ⟨h', ret, hins, hh, hkeeps, hret⟩ := hspec
  -- the slot written is with no entry
  have hsame := hi.core.binds_setSlot_rest { pdata := data, key := key } hf
  have hkept : Keeps h (h.setSlot f { pdata := data, key := key }) :=
    .of_buckets rfl hold
  refine ⟨h', ret, hins, hh, hkept.trans hkeeps, ?_⟩
  rcases hret with ⟨hpos, hi', hb⟩ | ⟨hneg, hi', hwalk, hbs, hb⟩
  · refine .inl ⟨hpos, hi', fun k d => (hb k d).trans ?_⟩
    rw [hsame]
  · exact .inr ⟨hneg, hi', hwalk, hbs, fun k d => (hb k d).trans (hsame k d)⟩

section AddKeyWithHash

variable {h₁ : Tbl D} {f : UInt32} {key : List UInt8} {sig : UInt32} {data : D}

/-- A slot is at hand and the key in its primary bucket. -/
theorem addKeyWithHash_primary (hget : getSlot h = (h₁, 4, f)) {i : Fin 4}
    (hf : findEntry h₁ key (sig &&& h.bucketBitmask) sig (hashSecondary sig)
      = some i) :
    addKeyWithHash h key sig data
      = updateEntry h₁ f (sig &&& h.bucketBitmask) i data := by
  rw [addKeyWithHash, hget]
  simp only [hf]
  rfl

/-- The key is in its secondary bucket. -/
theorem addKeyWithHash_secondary (hget : getSlot h = (h₁, 4, f)) {i : Fin 4}
    (hf1 : findEntry h₁ key (sig &&& h.bucketBitmask) sig (hashSecondary sig) = none)
    (hf2 : findEntry h₁ key (hashSecondary sig &&& h.bucketBitmask)
      (hashSecondary sig) sig = some i) :
    addKeyWithHash h key sig data
      = updateEntry h₁ f (hashSecondary sig &&& h.bucketBitmask) i data := by
  rw [addKeyWithHash, hget]
  simp only [hf1, hf2]
  rfl

/-- The key is in neither. -/
theorem addKeyWithHash_new (hget : getSlot h = (h₁, 4, f))
    (hf1 : findEntry h₁ key (sig &&& h.bucketBitmask) sig (hashSecondary sig) = none)
    (hf2 : findEntry h₁ key (hashSecondary sig &&& h.bucketBitmask)
      (hashSecondary sig) sig = none) :
    addKeyWithHash h key sig data
      = insertEntry (h₁.setSlot f { pdata := data, key := key })
          (sig &&& h.bucketBitmask) sig (hashSecondary sig) f := by
  rw [addKeyWithHash, hget]
  simp only [hf1, hf2]
  rfl

end AddKeyWithHash

/-- One call is one of the four outcomes, and no key changes its slot. -/
theorem addKeyWithHash_cases (hi : Inv h free []) {key : List UInt8}
    (hlen : key.length = h.keyLen.toNat) (data : D) :
    ∃ free' h' ret, addKeyWithHash h key (hash h key) data = some (h', ret)
      ∧ h'.header = h.header ∧ Keeps h h' ∧ Inv h' free' []
      ∧ AddOutcome h key data free free' h' ret := by
  cases free with
  | nil =>
      obtain ⟨r, x, hget, hi'⟩ := hi.getSlot_nil
      refine ⟨[], h.withRing r (.get 0), -ENOSPC, ?_, rfl,
        .of_buckets rfl fun _ _ => rfl, hi', .noSlot rfl fun _ _ => Iff.rfl⟩
      rw [addKeyWithHash, hget]
      rfl
  | cons f free =>
      obtain ⟨r, hget, hi'⟩ := hi.getSlot_cons
      -- the key is in entry `i` of bucket `b`
      have hupdate : ∀ b i, h.Occupied (b, i) → h.key (b, i) = key →
          ∃ free' h' ret, updateEntry (h.withRing r (.get 4)) f b i data = some (h', ret)
            ∧ h'.header = h.header ∧ Keeps h h' ∧ Inv h' free' []
            ∧ AddOutcome h key data (f :: free) free' h' ret := by
        intro b i hocc hk
        obtain ⟨h', hupd, hi'', hh, hkeeps, hbs, hb⟩ := updateEntry_spec hi' hocc data
        subst hk
        exact ⟨_, h', _, hupd, hh, hkeeps, hi'', .update hocc rfl hbs hb⟩
      cases hf1 : findEntry (h.withRing r (.get 4)) key
          (hash h key &&& h.bucketBitmask) (hash h key)
          (hashSecondary (hash h key)) with
      | some i =>
          obtain ⟨hs, hk⟩ := findEntry_some hf1
          rw [addKeyWithHash_primary hget hf1]
          refine hupdate _ i ?_ hk
          rw [Tbl.Occupied, Buckets.Occupied, show h.buckets.sigs _ = _ from hs]
          exact sigPair_ne_null (hash h key)
      | none =>
          cases hf2 : findEntry (h.withRing r (.get 4)) key
              (hashSecondary (hash h key) &&& h.bucketBitmask)
              (hashSecondary (hash h key)) (hash h key) with
          | some i =>
              obtain ⟨hs, hk⟩ := findEntry_some hf2
              rw [addKeyWithHash_secondary hget hf1 hf2]
              refine hupdate _ i ?_ hk
              rw [Tbl.Occupied, Buckets.Occupied, show h.buckets.sigs _ = _ from hs]
              exact swap_sigPair_ne_null (hash h key)
          | none =>
              rw [addKeyWithHash_new hget hf1 hf2]
              have habsent := hi'.core.absent hf1 hf2
              obtain ⟨h', ret, hins, hh, hkeeps, hret⟩ :=
                insertEntry_new hi' hlen habsent data
              rcases hret with ⟨rfl, hi'', hb⟩ | ⟨rfl, hi'', hwalk, hbs, hb⟩
              · exact ⟨free, h', _, hins, hh, hkeeps, hi'',
                  .insert habsent hi'.held.1 hb⟩
              · exact ⟨_, h', _, hins, hh, hkeeps, hi'', .refuse habsent hwalk hbs hb⟩

theorem AddOutcome.leaves {h' : Tbl D} {key : List UInt8} {data : D}
    {free' : List UInt32} {ret : Int} (hi : Inv h free []) (hh : h'.header = h.header)
    (hi' : Inv h' free' []) (hout : AddOutcome h key data free free' h' ret) :
    h.AddLeaves h' key data ret := by
  refine ⟨⟨free', hi'⟩, hh, ?_⟩
  cases hout with
  | noSlot _ hb => exact .inr ⟨rfl, hb⟩
  | update hocc _ _ hb =>
      have hused := (hi.core.used _ hocc).1
      exact .inl ⟨by omega, hb⟩
  | refuse _ _ _ hb => exact .inr ⟨rfl, hb⟩
  | insert _ hpos hb => exact .inl ⟨by omega, hb⟩

/-- The outcomes of an add: a slot number becomes 0. -/
theorem addKey_cases (hi : Inv h free []) {key : List UInt8}
    (hlen : key.length = h.keyLen.toNat) (data : D) :
    ∃ free' h' ret, cuckoohashAddKeyData h key data
        = some (h', if ret ≥ 0 then 0 else ret)
      ∧ h'.header = h.header ∧ Keeps h h' ∧ Inv h' free' []
      ∧ AddOutcome h key data free free' h' ret := by
  obtain ⟨free', h', ret, hadd, hrest⟩ := addKeyWithHash_cases hi hlen data
  refine ⟨free', h', ret, ?_, hrest⟩
  rw [cuckoohashAddKeyData, hadd]
  rfl

/-- An add returns 0 and binds the key to the datum, or returns `-ENOSPC`
and changes no binding. -/
theorem addKey_spec (hi : Inv h free []) {key : List UInt8}
    (hlen : key.length = h.keyLen.toNat) (data : D) :
    ∃ h' ret, cuckoohashAddKeyData h key data = some (h', ret)
      ∧ (∃ free', Inv h' free' []) ∧ h'.header = h.header
      ∧ ((ret = 0 ∧ h.BindsAfter h' key data)
        ∨ (ret = -ENOSPC ∧ ∀ k d, h'.Binds k d ↔ h.Binds k d)) := by
  obtain ⟨free', h', ret, hadd, hh, -, hi', hout⟩ := addKey_cases hi hlen data
  obtain ⟨-, -, hret⟩ := hout.leaves hi hh hi'
  refine ⟨h', _, hadd, ⟨free', hi'⟩, hh, ?_⟩
  rcases hret with ⟨hpos, hb⟩ | ⟨hneg, hb⟩
  · exact .inl ⟨if_pos hpos, hb⟩
  · subst hneg
    exact .inr ⟨rfl, hb⟩

end PktSender.Cuckoo
