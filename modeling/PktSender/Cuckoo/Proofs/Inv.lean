/-
The invariant of the cuckoo table, and what writing to the key store does to
it.

# Slots

At any time the slot numbers 1 to `entries` are divided among the ring, the
running call and the non-empty bucket entries. `Core h rest` is about the
buckets and the key store when `rest` are the numbers that are with no
entry; it does not mention the ring, so a call that only takes a slot out
of the ring or gives it back permutes `rest` and nothing else. `Inv` adds
that the ring holds its part.

# Entries

A non-empty entry lies in the bucket of its `current` hash, and its pair of
hashes is the one of the key in its slot or that pair swapped. So a key can
be found from its hash; that no two entries have the same key makes the
entry found the right one, whatever other keys share its hashes.

# The key store

An operation writes a slot that is with no entry, or the datum of an entry's
slot; the entries' keys stay either way (`Core.setStore`).
-/
import PktSender.Cuckoo.Proofs.Evict
import PktSender.Ring.Proofs.Items
import Mathlib.Data.List.Perm.Subperm

namespace PktSender.Cuckoo

open PktSender.Ring

variable {D : Type}

-- ============================================================== the hashes

/-- The pair of an entry in its primary bucket. -/
def sigPair (s : UInt32) : Signatures :=
  { current := s, alt := hashSecondary s }

/-- The secondary hash differs from the primary one: the multiplier is odd,
so only a zero tag plus one could be lost, and a tag has 20 bits. -/
theorem hashSecondary_ne (s : UInt32) : hashSecondary s ≠ s := by
  intro h
  have hprod : (s >>> 12 + 1) * 0x5bd1e995 = 0 := by
    have h' : s ^^^ (s ^^^ (s >>> 12 + 1) * 0x5bd1e995) = s ^^^ s :=
      congrArg (s ^^^ ·) h
    rwa [← UInt32.xor_assoc, UInt32.xor_self, UInt32.zero_xor] at h'
  have hone : s >>> 12 + 1 = 0 := by
    have h' : (s >>> 12 + 1) * 0x5bd1e995 * 0xe59b19bd = 0 * 0xe59b19bd :=
      congrArg (· * 0xe59b19bd) hprod
    rwa [UInt32.mul_assoc, show (0x5bd1e995 : UInt32) * 0xe59b19bd = 1 from rfl,
      UInt32.mul_one, UInt32.zero_mul] at h'
  have hsize := s.toNat_lt
  have hnat := congrArg UInt32.toNat hone
  rw [UInt32.toNat_add, UInt32.toNat_shiftRight, UInt32.toNat_zero,
    show (12 : UInt32).toNat % 32 = 12 from rfl,
    show (1 : UInt32).toNat = 1 from rfl, Nat.shiftRight_eq_div_pow] at hnat
  omega

/-- So a pair of hashes never looks like an empty entry. -/
theorem sigPair_ne_null (s : UInt32) : (sigPair s).sig ≠ nullSignature := by
  rw [Ne, Signatures.sig_eq_null]
  intro hex
  obtain ⟨hcur, halt⟩ := hex
  exact hashSecondary_ne s (halt.trans hcur.symm)

theorem swap_sigPair_ne_null (s : UInt32) :
    (sigPair s).swap.sig ≠ nullSignature :=
  Signatures.swap_null.not.mpr (sigPair_ne_null s)

-- ============================================================ the entries

/-- Non-empty entries, the key and the datum of their slots. -/
def Tbl.Occupied (h : Tbl D) (p : Pos) : Prop := h.buckets.Occupied p

def Tbl.key (h : Tbl D) (p : Pos) : List UInt8 := (h.slot (h.buckets.idx p)).key

def Tbl.datum (h : Tbl D) (p : Pos) : D := (h.slot (h.buckets.idx p)).pdata

/-- The table binds `k` to `d`. -/
def Tbl.Binds (h : Tbl D) (k : List UInt8) (d : D) : Prop :=
  ∃ p, h.Occupied p ∧ h.key p = k ∧ h.datum p = d

/-- Writing the datum of an entry's slot. -/
def Tbl.setDatum (h : Tbl D) (p : Pos) (d : D) : Tbl D :=
  h.setSlot (h.buckets.idx p) { h.slot (h.buckets.idx p) with pdata := d }

/-- The numbers no operation changes. -/
def Tbl.header (h : Tbl D) : List UInt32 :=
  [h.entries, h.numBuckets, h.keyLen, h.bucketBitmask, h.keyEntrySize,
    h.realSize]

theorem header_keyLen {h h' : Tbl D} (hh : h'.header = h.header) :
    h'.keyLen = h.keyLen := by
  simp only [Tbl.header, List.cons.injEq] at hh
  exact hh.2.2.1

theorem header_entries {h h' : Tbl D} (hh : h'.header = h.header) :
    h'.entries = h.entries := by
  simp only [Tbl.header, List.cons.injEq] at hh
  exact hh.1

theorem header_mask {h h' : Tbl D} (hh : h'.header = h.header) :
    h'.bucketBitmask = h.bucketBitmask := by
  simp only [Tbl.header, List.cons.injEq] at hh
  exact hh.2.2.2.1

theorem header_numBuckets {h h' : Tbl D} (hh : h'.header = h.header) :
    h'.numBuckets = h.numBuckets := by
  simp only [Tbl.header, List.cons.injEq] at hh
  exact hh.2.1

/-- The numbers of the header fit together, and the sizes `create` computed
did not wrap. -/
structure Shape (h : Tbl D) : Prop where
  bits : ∃ k, h.numBuckets.toNat = 2 ^ k
  few : 4 * h.numBuckets.toNat < 2 ^ 32
  mask : h.bucketBitmask = h.numBuckets - 1
  entrySize : h.keyEntrySize.toNat = 8 + h.keyLen.toNat
  fits : (h.entries.toNat + 1) * h.keyEntrySize.toNat < 2 ^ 32

/-- They are about the header only. -/
theorem Shape.of_header {h h' : Tbl D} (hs : Shape h)
    (hh : h'.header = h.header) : Shape h' := by
  simp only [Tbl.header, List.cons.injEq] at hh
  obtain ⟨hentries, hbuckets, hkey, hmask, hsize, -⟩ := hh
  refine ⟨?_, ?_, ?_, ?_, ?_⟩
  · rw [hbuckets]
    exact hs.bits
  · rw [hbuckets]
    exact hs.few
  · rw [hmask, hbuckets]
    exact hs.mask
  · rw [hsize, hkey]
    exact hs.entrySize
  · rw [hentries, hsize]
    exact hs.fits

/-- A slot number of the table. -/
def Tbl.IsSlot (h : Tbl D) (x : UInt32) : Prop :=
  1 ≤ x.toNat ∧ x.toNat ≤ h.entries.toNat

/-- The buckets and the key store, when the slots `rest` are with no
entry. -/
structure Core (h : Tbl D) (rest : List UInt32) : Prop where
  shape : Shape h
  nodup : rest.Nodup
  slots : ∀ x ∈ rest, h.IsSlot x
  flags : ∀ p, h.buckets.flagAt p = 0
  home : ∀ p, h.Occupied p →
    p.1 = (h.buckets.sigs p).current &&& h.bucketBitmask
  pair : ∀ p, h.Occupied p →
    h.buckets.sigs p = sigPair (hash h (h.key p))
      ∨ h.buckets.sigs p = (sigPair (hash h (h.key p))).swap
  keyLen : ∀ p, h.Occupied p → (h.key p).length = h.keyLen.toNat
  used : ∀ p, h.Occupied p → h.IsSlot (h.buckets.idx p)
  apart : ∀ p, h.Occupied p → h.buckets.idx p ∉ rest
  inj : ∀ p q, h.Occupied p → h.Occupied q →
    h.buckets.idx p = h.buckets.idx q → p = q
  cover : ∀ x, h.IsSlot x → x ∈ rest ∨ ∃ p, h.Occupied p ∧ h.buckets.idx p = x
  distinct : ∀ p q, h.Occupied p → h.Occupied q → h.key p = h.key q → p = q

/-- The whole table: `free` is in the ring, `held` with the running call. -/
structure Inv (h : Tbl D) (free held : List UInt32) : Prop where
  core : Core h (free ++ held)
  ring : HoldsItems h.freeSlots free
  capacity : 4 * (h.entries.toNat + 1) ≤ h.freeSlots.dataSize.toNat
  log : ∀ c ∈ h.ringLog, c = .put 4 ∨ c = .get 4 ∨ c = .get 0

namespace Core

variable {h : Tbl D} {rest : List UInt32}

/-- The order of the slots that are with no entry does not matter. -/
theorem perm {rest' : List UInt32} (hc : Core h rest)
    (hp : rest.Perm rest') : Core h rest' :=
  { hc with
    nodup := hp.nodup_iff.mp hc.nodup
    slots := fun x hx => hc.slots x (hp.mem_iff.mpr hx)
    apart := fun p hp' hx => hc.apart p hp' (hp.mem_iff.mpr hx)
    cover := fun x hx => (hc.cover x hx).imp_left hp.mem_iff.mp }

/-- Nor does the ring. -/
theorem setRing (hc : Core h rest) (r : Ringbuffer) (log : List SlotCall) :
    Core { h with freeSlots := r, ringLog := log } rest :=
  { hc with shape := { hc.shape with } }

/-- The slots outside the table's entries are at most `entries`. -/
theorem length_le (hc : Core h rest) : rest.length ≤ h.entries.toNat := by
  have hnodup : (rest.map UInt32.toNat).Nodup :=
    hc.nodup.map fun x y hxy => UInt32.toNat_inj.mp hxy
  have hsub : rest.map UInt32.toNat ⊆ List.range' 1 h.entries.toNat := by
    intro n hn
    obtain ⟨x, hx, rfl⟩ := List.mem_map.mp hn
    obtain ⟨h1, h2⟩ := hc.slots x hx
    exact List.mem_range'_1.mpr ⟨h1, by omega⟩
  have := (List.subperm_of_subset hnodup hsub).length_le
  simpa using this

/-- A key is bound to one datum. -/
theorem binds_unique (hc : Core h rest) {k : List UInt8} {d d' : D}
    (hd : h.Binds k d) (hd' : h.Binds k d') : d = d' := by
  obtain ⟨p, hp, hk, rfl⟩ := hd
  obtain ⟨q, hq, hk', rfl⟩ := hd'
  rw [hc.distinct p q hp hq (hk.trans hk'.symm)]

-- ============================================================ the key store

/-- Different slots lie at different offsets. -/
theorem slot_setSlot (hc : Core h rest) {x y : UInt32} {s : KeySlot D}
    (hx : h.IsSlot x) (hy : h.IsSlot y) :
    (h.setSlot x s).slot y = if y = x then s else h.slot y := by
  have hoff : ∀ z : UInt32, h.IsSlot z →
      (z * h.keyEntrySize).toNat = z.toNat * h.keyEntrySize.toNat := fun z hz => by
    have hle := Nat.mul_le_mul_right h.keyEntrySize.toNat hz.2
    have hfits := hc.shape.fits
    rw [Nat.add_mul] at hfits
    rw [UInt32.toNat_mul, Nat.mod_eq_of_lt (by omega)]
  show Function.update h.keyStore (x * h.keyEntrySize) s (y * h.keyEntrySize) = _
  split
  next heq => rw [heq, Function.update_self]
  next hne =>
    rw [Function.update_of_ne]
    · rfl
    · intro heq
      have hnat := congrArg UInt32.toNat heq
      have hsize := hc.shape.entrySize
      rw [hoff x hx, hoff y hy] at hnat
      exact hne (UInt32.toNat_inj.mp (Nat.eq_of_mul_eq_mul_right (by omega) hnat))

/-- Writing a slot that is with no entry changes no entry's key or datum. -/
theorem slot_setSlot_rest (hc : Core h rest) {x : UInt32} {s : KeySlot D}
    (hx : x ∈ rest) {p : Pos} (hp : h.Occupied p) :
    (h.setSlot x s).slot (h.buckets.idx p) = h.slot (h.buckets.idx p) := by
  rw [hc.slot_setSlot (hc.slots x hx) (hc.used p hp), if_neg]
  intro heq
  subst heq
  exact hc.apart p hp hx

/-- A change of the key store that leaves the entries' keys alone. -/
theorem setStore (hc : Core h rest) (store : UInt32 → KeySlot D)
    (hkey : ∀ p, h.Occupied p →
      Tbl.key { h with keyStore := store } p = h.key p) :
    Core { h with keyStore := store } rest := by
  refine ⟨hc.shape.of_header rfl, hc.nodup, hc.slots, hc.flags, hc.home,
    fun p hp => ?_, fun p hp => ?_, hc.used, hc.apart, hc.inj, hc.cover,
    fun p q hp hq heq => ?_⟩
  · rw [hkey p hp]
    exact hc.pair p hp
  · rw [hkey p hp]
    exact hc.keyLen p hp
  · rw [hkey p hp, hkey q hq] at heq
    exact hc.distinct p q hp hq heq

theorem setSlot_rest (hc : Core h rest) {x : UInt32} (s : KeySlot D)
    (hx : x ∈ rest) : Core (h.setSlot x s) rest :=
  hc.setStore _ fun _ hp => congrArg KeySlot.key (hc.slot_setSlot_rest hx hp)

theorem binds_setSlot_rest (hc : Core h rest) {x : UInt32} (s : KeySlot D)
    (hx : x ∈ rest) (k : List UInt8) (d : D) :
    (h.setSlot x s).Binds k d ↔ h.Binds k d := by
  refine exists_congr fun p => and_congr_right fun hp => ?_
  have hslot := hc.slot_setSlot_rest (s := s) hx hp
  rw [show (h.setSlot x s).key p = h.key p from congrArg KeySlot.key hslot,
    show (h.setSlot x s).datum p = h.datum p from congrArg KeySlot.pdata hslot]

theorem slot_setDatum (hc : Core h rest) {p q : Pos} {d : D}
    (hp : h.Occupied p) (hq : h.Occupied q) :
    (h.setDatum p d).key q = h.key q
      ∧ (h.setDatum p d).datum q = if q = p then d else h.datum q := by
  have hslot := hc.slot_setSlot (hc.used p hp) (hc.used q hq)
    (s := { h.slot (h.buckets.idx p) with pdata := d })
  unfold Tbl.key Tbl.datum Tbl.setDatum
  rw [show (h.setSlot (h.buckets.idx p) { h.slot (h.buckets.idx p) with
    pdata := d }).buckets = h.buckets from rfl, hslot]
  by_cases hqp : q = p
  · subst hqp
    rw [if_pos rfl, if_pos rfl]
    exact ⟨rfl, rfl⟩
  · rw [if_neg fun heq => hqp (hc.inj q p hq hp heq), if_neg hqp]
    exact ⟨rfl, rfl⟩

theorem setDatum (hc : Core h rest) {p : Pos} (d : D) (hp : h.Occupied p) :
    Core (h.setDatum p d) rest :=
  hc.setStore _ fun _ hq => (hc.slot_setDatum hp hq).1

theorem binds_setDatum (hc : Core h rest) {p : Pos} (d : D)
    (hp : h.Occupied p) (k : List UInt8) (e : D) :
    (h.setDatum p d).Binds k e
      ↔ if k = h.key p then e = d else h.Binds k e := by
  have hslot : ∀ q, h.Occupied q →
      (h.setDatum p d).key q = h.key q
        ∧ (h.setDatum p d).datum q = if q = p then d else h.datum q :=
    fun q hq => hc.slot_setDatum hp hq
  split
  next hk =>
    constructor
    · intro hex
      obtain ⟨q, hq, hkq, hdq⟩ := hex
      rw [(hslot q hq).1] at hkq
      obtain rfl := hc.distinct q p hq hp (hkq.trans hk)
      rw [(hslot q hq).2, if_pos rfl] at hdq
      exact hdq.symm
    · intro heq
      subst heq
      exact ⟨p, hp, by rw [(hslot p hp).1, hk], by rw [(hslot p hp).2, if_pos rfl]⟩
  next hk =>
    refine exists_congr fun q => and_congr_right fun hq => ?_
    rw [(hslot q hq).1, (hslot q hq).2]
    refine and_congr_right fun hkq => ?_
    rw [if_neg]
    intro heq
    subst heq
    exact hk hkq.symm

end Core

end PktSender.Cuckoo
