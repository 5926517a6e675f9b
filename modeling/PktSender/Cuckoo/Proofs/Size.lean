/-
The size of a created table.

`cuckoohash_create` adds up the size of the header, the buckets and the key
slots and maps that many bytes, but keeps the sum in 32 bits, and nothing
compares the number of entries with `HASH_ENTRIES_MAX`. `sizeWith` is the
sum in exact numbers; the size the code computes is its remainder modulo
2^32 (`realSizeOf_toNat`), so the table fits in its mapping exactly when
the sum has not wrapped and the number of buckets has not been rounded up
to 0.
-/
import PktSender.Cuckoo.Proofs.Map

namespace PktSender.Cuckoo

open PktSender.Ring

variable {D : Type} {h h' : Tbl D}

/-- The table has room for what it will store, with slots of `slot` bytes:
header, buckets and the slots 0 to `entries` lie within the mapping, the
buckets are a power of two and have an entry for every slot, and the slots 1
to `entries` are free. -/
structure Tbl.LargeEnough (h : Tbl D) (slot : Nat) : Prop where
  room : 48 + h.numBuckets.toNat * 56 + (h.entries.toNat + 1) * slot
    ≤ h.realSize.toNat
  bits : ∃ k, h.numBuckets.toNat = 2 ^ k
  enough : h.entries.toNat ≤ 4 * h.numBuckets.toNat
  free : HoldsItems h.freeSlots (slotNumbers h.entries)

/-- The size of a table in exact numbers, with slots of `slot` bytes. -/
def sizeWith (entryNr : UInt32) (slot : Nat) : Nat :=
  48 + (roundup2 (entriesOf entryNr)).toNat / 4 * 56
    + ((entriesOf entryNr).toNat + 1) * slot

/-- The code's size is the exact one modulo 2^32. -/
theorem realSizeOf_toNat (key entryNr : UInt32) :
    (realSizeOf key entryNr).toNat
      = sizeWith entryNr (sizeofKey + key).toNat % 2 ^ 32 := by
  unfold realSizeOf sizeWith
  rw [UInt32.toNat_add, UInt32.toNat_add, UInt32.toNat_mul, UInt32.toNat_mul,
    UInt32.toNat_add (entriesOf entryNr) 1, UInt32.toNat_div]
  simp only [sizeofTbl, sizeofBucket, UInt32.reduceToNat, Nat.add_mod, Nat.mul_mod,
    Nat.mod_mod]

/-- Putting slot numbers leaves the header alone. -/
theorem putSlot_header {x : UInt32} (hp : putSlot h x = some h') :
    h'.header = h.header := by
  obtain ⟨r, -, rfl⟩ := Option.map_eq_some_iff.mp hp
  rfl

theorem populate_header {l : List Nat}
    (hl : l.foldlM (fun h i => putSlot h (UInt32.ofNat i)) h = some h') :
    h'.header = h.header := by
  induction l generalizing h with
  | nil =>
      cases hl
      rfl
  | cons i l ih =>
      rw [List.foldlM_cons] at hl
      obtain ⟨h₁, hput, hrest⟩ := Option.bind_eq_some_iff.mp hl
      exact (ih hrest).trans (putSlot_header hput)

section Create

variable [Inhabited D] {mmapOk : UInt32 → Bool} {env : CreateEnv}
  {key entryNr : UInt32}

/-- The header of a created table. -/
theorem create_header
    (hc : cuckoohashCreate mmapOk env key entryNr = some (.ok h)) :
    h.header = [entriesOf entryNr, roundup2 (entriesOf entryNr) / 4, key,
      roundup2 (entriesOf entryNr) / 4 - 1, sizeofKey + key,
      realSizeOf key entryNr] := by
  obtain ⟨r, -, hfold⟩ := create_cases hc
  exact populate_header hfold

/-- The bytes a created table needs. -/
theorem create_needs (hc : cuckoohashCreate mmapOk env key entryNr = some (.ok h))
    (slot : Nat) :
    48 + h.numBuckets.toNat * 56 + (h.entries.toNat + 1) * slot
        = sizeWith entryNr slot
      ∧ h.realSize.toNat = sizeWith entryNr h.keyEntrySize.toNat % 2 ^ 32
      ∧ h.keyEntrySize = sizeofKey + key := by
  have hh := create_header hc
  simp only [Tbl.header, List.cons.injEq] at hh
  obtain ⟨hentries, hbuckets, -, -, hslot, hsize, -⟩ := hh
  rw [hentries, hbuckets, hslot, hsize, UInt32.toNat_div]
  exact ⟨rfl, realSizeOf_toNat key entryNr, rfl⟩

/-- A size that has not wrapped means few entries. -/
theorem entries_small {slot : Nat} (hle : (entriesOf entryNr).toNat ≤ 2 ^ 31)
    (hsize : sizeWith entryNr slot < 2 ^ 32) :
    (entriesOf entryNr).toNat + 1 < 2 ^ 29 := by
  have hmin := hashEntriesMin_le entryNr
  have hge := (roundup2_spec (n := entriesOf entryNr) (by omega) hle).2.1
  unfold sizeWith at hsize
  omega

/-- `HASH_ENTRIES_MAX`, which the code declares and does not check. -/
def hashEntriesMax : UInt32 := 1048576

/-- Up to that many entries with keys of up to 4073 bytes fit. -/
theorem sizeWith_of_le_max (hmax : entryNr ≤ hashEntriesMax)
    (hkey : key.toNat ≤ 4073) : sizeWith entryNr (8 + key.toNat) < 2 ^ 32 := by
  have hmin := hashEntriesMin_le entryNr
  have hle : (entriesOf entryNr).toNat ≤ 2 ^ 20 := by
    rw [UInt32.le_iff_toNat_le] at hmax
    unfold entriesOf
    split
    · exact (by decide : (8 : Nat) ≤ 2 ^ 20)
    · exact hmax
  obtain ⟨⟨k, hk⟩, -, hlt⟩ :=
    roundup2_spec (n := entriesOf entryNr) (by omega) (by omega)
  have hk20 : k ≤ 20 := by
    by_contra hgt
    have : 2 ^ 21 ≤ 2 ^ k := Nat.pow_le_pow_right (by decide) (by omega)
    omega
  have hpow : 2 ^ k ≤ 2 ^ 20 := Nat.pow_le_pow_right (by decide) hk20
  have hslots : ((entriesOf entryNr).toNat + 1) * (8 + key.toNat)
      ≤ (2 ^ 20 + 1) * (8 + 4073) := Nat.mul_le_mul (by omega) (by omega)
  unfold sizeWith
  omega

/-- A size that has not wrapped is the one the code maps, and is enough. -/
theorem create_large_enough
    (hc : cuckoohashCreate mmapOk env key entryNr = some (.ok h))
    (hle : (entriesOf entryNr).toNat ≤ 2 ^ 31)
    (hsize : sizeWith entryNr h.keyEntrySize.toNat < 2 ^ 32) :
    h.LargeEnough h.keyEntrySize.toNat := by
  have hmin := hashEntriesMin_le entryNr
  obtain ⟨hneeds, hreal, -⟩ := create_needs hc h.keyEntrySize.toNat
  have hh := create_header hc
  simp only [Tbl.header, List.cons.injEq] at hh
  obtain ⟨hentries, hbuckets, -⟩ := hh
  obtain ⟨⟨k, hk⟩, hge, -⟩ :=
    roundup2_spec (n := entriesOf entryNr) (by omega) hle
  have hk2 : 2 ≤ k := by
    by_contra hlt
    have : 2 ^ k ≤ 2 ^ 1 := Nat.pow_le_pow_right (by decide) (by omega)
    omega
  have hquarter : h.numBuckets.toNat = 2 ^ (k - 2) := by
    rw [hbuckets, UInt32.toNat_div, hk, show (4 : UInt32).toNat = 2 ^ 2 from rfl,
      Nat.pow_div hk2 (by decide)]
  have hfour : 2 ^ k = 4 * 2 ^ (k - 2) := by
    rw [show (4 : Nat) = 2 ^ 2 from rfl, ← pow_add, Nat.add_sub_cancel' hk2]
  refine ⟨?_, ⟨k - 2, hquarter⟩, ?_, ?_⟩
  · rw [hneeds, hreal, Nat.mod_eq_of_lt hsize]
  · rw [hentries, hquarter, ← hfour, ← hk]
    exact hge
  · obtain ⟨r, hr, hfold⟩ := create_cases hc
    obtain ⟨r', log, hfold', hr', -⟩ := create_populates (D := D)
      (entries_small hle hsize) (realSizeOf key entryNr) hr
    rw [hfold', Option.some.injEq] at hfold
    subst hfold
    exact hr'

/-- When a created table is large enough for what it will store: exactly when
its size, in exact numbers, is below 2^32, and the round-up of its entries has
not wrapped to 0. The first part takes the slots to be of `key_entry_size`
bytes, the second of 8 bytes and a key; the two differ where `8 + key` itself
wraps. -/
theorem create_large_enough_iff
    (hc : cuckoohashCreate mmapOk env key entryNr = some (.ok h)) :
    (h.LargeEnough h.keyEntrySize.toNat
        ↔ (entriesOf entryNr).toNat ≤ 2 ^ 31
          ∧ sizeWith entryNr (sizeofKey + key).toNat < 2 ^ 32)
      ∧ (h.LargeEnough (8 + key.toNat) ↔ sizeWith entryNr (8 + key.toNat) < 2 ^ 32) := by
  have hlt := h.realSize.toNat_lt
  have hslot := (create_needs hc 0).2.2
  have hfits : ∀ slot, h.LargeEnough slot → sizeWith entryNr slot < 2 ^ 32 := by
    intro slot hlarge
    have hroom := hlarge.room
    rw [(create_needs hc slot).1] at hroom
    omega
  constructor
  · rw [← hslot]
    constructor
    · intro hlarge
      refine ⟨?_, hfits _ hlarge⟩
      -- a count that wraps leaves no buckets
      by_contra hbig
      have hzero := roundup2_wrap (n := entriesOf entryNr) (.inr (by omega))
      have hh := create_header hc
      simp only [Tbl.header, List.cons.injEq] at hh
      obtain ⟨k, hk⟩ := hlarge.bits
      rw [hh.2.1, UInt32.toNat_div, hzero] at hk
      exact absurd hk (Nat.two_pow_pos k).ne
    · intro hex
      exact create_large_enough hc hex.1 hex.2
  · refine ⟨hfits _, fun hsize => ?_⟩
    have hmin := hashEntriesMin_le entryNr
    have hkey : 8 + key.toNat
        ≤ ((entriesOf entryNr).toNat + 1) * (8 + key.toNat) :=
      Nat.le_mul_of_pos_left _ (Nat.succ_pos _)
    have hcount : ((entriesOf entryNr).toNat + 1) * 8
        ≤ ((entriesOf entryNr).toNat + 1) * (8 + key.toNat) :=
      Nat.mul_le_mul_left _ (by omega)
    have hle : (entriesOf entryNr).toNat ≤ 2 ^ 31 := by
      unfold sizeWith at hsize
      omega
    have heq : h.keyEntrySize.toNat = 8 + key.toNat := by
      unfold sizeWith at hsize
      rw [hslot, UInt32.toNat_add, show sizeofKey.toNat = 8 from rfl,
        Nat.mod_eq_of_lt (by omega)]
    rw [← heq] at hsize ⊢
    exact create_large_enough hc hle hsize

theorem create_large_enough_iff_eight :
    ∃ h : Tbl Nat, cuckoohashCreate (fun _ => true)
        { openOk := true, ftruncateOk := fun _ => true
          mmapOk := fun _ => true } 1 8 = some (.ok h)
      ∧ h.LargeEnough h.keyEntrySize.toNat := by
  have hsize : exactSize 1 8 < 2 ^ 32 := by decide
  obtain ⟨h, hc⟩ := create_returns (D := Nat) (by decide) (by decide) hsize
  exact ⟨h, hc, (create_large_enough_iff hc).1.mpr ⟨by decide, by decide⟩⟩

/-- More entries than that, with keys of 24 bytes: the table needs 6174015568
bytes and gets 1879048272. -/
theorem create_not_large_enough :
    ∃ h : Tbl Nat, cuckoohashCreate (fun _ => true)
        { openOk := true, ftruncateOk := fun _ => true
          mmapOk := fun _ => true } 24 0x8000000 = some (.ok h)
      ∧ hashEntriesMax < 0x8000000 ∧ h.realSize = 1879048272
      ∧ ¬ h.LargeEnough h.keyEntrySize.toNat ∧ ¬ h.LargeEnough (8 + 24) := by
  have hkey : 1 ≤ (24 : UInt32).toNat := by decide
  have hsmall : (entriesOf 0x8000000).toNat + 1 < 2 ^ 29 := by decide
  obtain ⟨h, hc⟩ := create_returns_of_small (D := Nat) hkey (by decide) hsmall
  have hslot : h.keyEntrySize.toNat = 32 := by
    rw [(create_needs hc 0).2.2]
    rfl
  have hneeds : sizeWith 0x8000000 32 = 6174015568 := by decide
  have hreal : h.realSize.toNat = 1879048272 := by
    rw [(create_needs hc 0).2.1, hslot, hneeds]
    rfl
  have hnot : ¬ h.LargeEnough 32 := by
    intro hlarge
    have hroom := hlarge.room
    rw [(create_needs hc 32).1, hneeds, hreal] at hroom
    omega
  refine ⟨h, hc, by decide, UInt32.toNat_inj.mp hreal, ?_, hnot⟩
  rw [hslot]
  exact hnot

end Create

end PktSender.Cuckoo
