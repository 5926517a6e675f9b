/-
When an add fails.

# New keys

A new key only ever goes to its primary bucket. An add refuses it when no
slot is free, or when that bucket is full and the path of alternative buckets
from it is blocked (`Tbl.NoPlace`). The key's own secondary bucket is not
asked, and it may have room (`add_refused_with_room`).

# Keys that are there

An add takes a slot before it looks for the key, and gives it back when it
finds it. So a key that is in the table is updated exactly when a slot is
free.
-/
import PktSender.Cuckoo.Proofs.Walk
import PktSender.Cuckoo.Proofs.Room

namespace PktSender.Cuckoo

open PktSender.Ring

variable {D : Type} {h h' : Tbl D} {free rest : List UInt32} {key : List UInt8}

-- ================================================================ new keys

section Reachable

variable [Inhabited D]

/-- Exactly when a new key is refused. -/
theorem add_refused_iff_noPlace (hr : h.Reachable) (hlen : key.length = h.keyLen.toNat)
    (hno : ∀ d, ¬ h.Binds key d) (data : D) :
    (∃ h', cuckoohashAddKeyData h key data = some (h', -ENOSPC))
      ↔ h.freeSlots.contents = [] ∨ h.NoPlace key := by
  obtain ⟨free, hi⟩ := hr.inv
  have habsent : ∀ p, h.Occupied p → h.key p ≠ key := fun p hp hk =>
    hno _ ⟨p, hp, hk, rfl⟩
  obtain ⟨free', h₁, ret, hadd, -, -, -, hout⟩ := addKey_cases hi hlen data
  rw [hi.ring.contents_eq_nil, ← hi.core.walkFails_iff]
  cases hout with
  | noSlot => exact iff_of_true ⟨h₁, hadd⟩ (.inl rfl)
  | update hp hk => exact absurd hk (habsent _ hp)
  | refuse _ hwalk => exact iff_of_true ⟨h₁, hadd⟩ (.inr hwalk)
  | insert _ hpos =>
      rw [if_pos (by omega)] at hadd
      refine iff_of_false (fun hrefused => ?_) (fun hor => ?_)
      · obtain ⟨h', hrefused⟩ := hrefused
        rw [hadd, Option.some.injEq] at hrefused
        exact absurd (Prod.mk.inj hrefused).2 (by decide)
      · have hwalk := hor.resolve_left (List.cons_ne_nil _ _)
        obtain ⟨h', hrefused⟩ :=
          addKey_refused hi hlen data habsent (List.cons_ne_nil _ _) hwalk
        rw [hadd, Option.some.injEq] at hrefused
        exact absurd (Prod.mk.inj hrefused).2 (by decide)

/-- A new key is refused only for want of a slot or with both its buckets
full, except when a slot is free, the path from its full primary bucket is
blocked, and its secondary bucket has room. -/
theorem add_refused_full_iff (hr : h.Reachable) (hlen : key.length = h.keyLen.toNat)
    (hno : ∀ d, ¬ h.Binds key d) (data : D) :
    (∀ h', cuckoohashAddKeyData h key data = some (h', -ENOSPC) →
        h.freeSlots.contents = []
          ∨ h.buckets.Full (hash h key &&& h.bucketBitmask)
            ∧ h.buckets.Full (hashSecondary (hash h key) &&& h.bucketBitmask))
      ↔ ¬ (h.freeSlots.contents ≠ [] ∧ h.NoPlace key
          ∧ ¬ h.buckets.Full (hashSecondary (hash h key) &&& h.bucketBitmask)) := by
  have hrefused := add_refused_iff_noPlace hr hlen hno data
  constructor
  · intro hclaim hfails
    obtain ⟨hfree, hplace, hsec⟩ := hfails
    obtain ⟨h', hadd⟩ := hrefused.mpr (.inr hplace)
    rcases hclaim h' hadd with hnil | ⟨-, hfull⟩
    · exact hfree hnil
    · exact hsec hfull
  · intro hcond h' hadd
    rcases hrefused.mp ⟨h', hadd⟩ with hnil | hplace
    · exact .inl hnil
    · by_cases hfree : h.freeSlots.contents = []
      · exact .inl hfree
      · refine .inr ⟨hplace.1, ?_⟩
        by_contra hsec
        exact hcond ⟨hfree, hplace, hsec⟩

end Reachable

/-- A fifth key that has bucket 0 as its primary one is refused, although
slots are free and its secondary bucket is empty. -/
theorem oneBucket_refuses {h : Tbl Nat} (hafter : tableAfter oneBucket = some h) :
    (cuckoohashLookupData h [6]).1 = -ENOENT
      ∧ (cuckoohashAddKeyData h [6] 60).map (·.2) = some (-ENOSPC)
      ∧ h.freeSlots.contents ≠ []
      ∧ ¬ h.buckets.Occupied (hashSecondary (hash h [6]) &&& h.bucketBitmask, 0) := by
  have hall : (tableAfter oneBucket).all fun h =>
      decide ((cuckoohashLookupData h [6]).1 = -ENOENT
        ∧ (cuckoohashAddKeyData h [6] 60).map (·.2) = some (-ENOSPC)
        ∧ h.freeSlots.contents ≠ []
        ∧ ¬ h.buckets.Occupied
          (hashSecondary (hash h [6]) &&& h.bucketBitmask, 0)) := by
    decide +kernel
  rw [hafter] at hall
  exact of_decide_eq_true hall

/-- A key that a lookup does not find has no entry. -/
theorem not_binds_of_lookup {rest : List UInt32} (hc : Core h rest)
    (hl : (cuckoohashLookupData h key).1 = -ENOENT) (d : D) : ¬ h.Binds key d := by
  intro hb
  obtain ⟨p, hp, hk, -⟩ := hb
  rw [lookup_present hc hp hk] at hl
  have hused := (hc.used p hp).1
  unfold ENOENT at hl
  omega

/-- One that a lookup finds has. -/
theorem binds_of_lookup {rest : List UInt32} (hc : Core h rest) {d : D}
    (hl : (cuckoohashLookupData h key).2 = some d) : h.Binds key d := by
  by_cases hp : ∃ p, h.Occupied p ∧ h.key p = key
  · obtain ⟨p, hp, hk⟩ := hp
    rw [lookup_present hc hp hk, Option.some.injEq] at hl
    exact ⟨p, hp, hk, hl⟩
  · have hno : ∀ p, h.Occupied p → h.key p ≠ key :=
      fun p hp' hk => hp ⟨p, hp', hk⟩
    rw [lookup_absent hno] at hl
    cases hl

/-- A key of the other bucket. -/
theorem oneBucket_room {h : Tbl Nat} (hafter : tableAfter oneBucket = some h) :
    (cuckoohashLookupData h [2]).1 = -ENOENT
      ∧ ¬ h.buckets.Occupied (hash h [2] &&& h.bucketBitmask, 0) := by
  have hall : (tableAfter oneBucket).all fun h =>
      decide ((cuckoohashLookupData h [2]).1 = -ENOENT
        ∧ ¬ h.buckets.Occupied (hash h [2] &&& h.bucketBitmask, 0)) := by
    decide +kernel
  rw [hafter] at hall
  exact of_decide_eq_true hall

/-- The path of key 6 is blocked; for key 2 the condition holds, and with it
the conclusion. -/
theorem add_refused_full_iff_oneBucket :
    ∃ h : Tbl Nat, tableAfter oneBucket = some h ∧ h.NoPlace [6]
      ∧ ∀ h', cuckoohashAddKeyData h [2] 20 = some (h', -ENOSPC) →
          h.freeSlots.contents = []
            ∨ h.buckets.Full (hash h [2] &&& h.bucketBitmask)
              ∧ h.buckets.Full (hashSecondary (hash h [2]) &&& h.bucketBitmask) := by
  obtain ⟨h, hafter, hr, hlen⟩ := tableAfter_reachable oneBucket (by decide)
  obtain ⟨hl, hadd, hfree, hroom⟩ := oneBucket_refuses hafter
  obtain ⟨hl', hroom'⟩ := oneBucket_room hafter
  obtain ⟨⟨h', ret⟩, hadd, rfl⟩ := Option.map_eq_some_iff.mp hadd
  obtain ⟨free, hi⟩ := hr.inv
  have hlen6 : ([6] : List UInt8).length = h.keyLen.toNat := by rw [hlen]; rfl
  have hlen2 : ([2] : List UInt8).length = h.keyLen.toNat := by rw [hlen]; rfl
  have hno6 := not_binds_of_lookup hi.core hl
  have hno2 := not_binds_of_lookup hi.core hl'
  refine ⟨h, hafter, ?_, ?_⟩
  · by_contra hplace
    have hcond := (add_refused_full_iff hr hlen6 hno6 60).mpr fun hfails =>
      hplace hfails.2.1
    rcases hcond h' hadd with hnil | ⟨-, hfull⟩
    · exact hfree hnil
    · exact hroom (hfull 0)
  · exact (add_refused_full_iff hr hlen2 hno2 20).mpr fun hfails =>
      hroom' (hfails.2.1.1 0)

/-- So the secondary bucket of a refused key may have room. -/
theorem add_refused_with_room :
    ∃ h : Tbl Nat, h.Reachable ∧ (∀ d, ¬ h.Binds [6] d)
      ∧ (∃ h', cuckoohashAddKeyData h [6] 60 = some (h', -ENOSPC))
      ∧ ¬ (h.freeSlots.contents = []
        ∨ h.buckets.Full (hash h [6] &&& h.bucketBitmask)
          ∧ h.buckets.Full (hashSecondary (hash h [6]) &&& h.bucketBitmask)) := by
  obtain ⟨h, hafter, hr, -⟩ := tableAfter_reachable oneBucket (by decide)
  obtain ⟨hl, hadd, hfree, hroom⟩ := oneBucket_refuses hafter
  obtain ⟨⟨h', ret⟩, hadd, rfl⟩ := Option.map_eq_some_iff.mp hadd
  obtain ⟨free, hi⟩ := hr.inv
  refine ⟨h, hr, not_binds_of_lookup hi.core hl, ⟨h', hadd⟩, ?_⟩
  intro hor
  rcases hor with hnil | ⟨-, hfull⟩
  · exact hfree hnil
  · exact hroom (hfull 0)

-- ====================================================== keys that are there

/-- The same slots are free, in some order. -/
def SameFree (h h' : Tbl D) : Prop :=
  ∃ free free' : List UInt32, h.freeSlots.contents = free.flatMap itemBytes
    ∧ h'.freeSlots.contents = free'.flatMap itemBytes ∧ free'.Perm free

/-- What an add of a key that is there is for. -/
def Updated (h : Tbl D) (key : List UInt8) (data : D) : Prop :=
  ∃ h', cuckoohashAddKeyData h key data = some (h', 0)
    ∧ (∃ v, 0 ≤ v ∧ cuckoohashLookupData h' key = (v, some data))
    ∧ h'.buckets = h.buckets
    ∧ (∀ k d, k ≠ key → (h'.Binds k d ↔ h.Binds k d))
    ∧ SameFree h h'

section Reachable

variable [Inhabited D]

/-- A key that is in the table is updated if and only if a slot is free. -/
theorem readd_updates_iff (hr : h.Reachable) {d₀ : D} (hb : h.Binds key d₀) (data : D) :
    Updated h key data ↔ h.freeSlots.contents ≠ [] := by
  obtain ⟨free, hi⟩ := hr.inv
  obtain ⟨p, hp, hk, -⟩ := hb
  have hlen : key.length = h.keyLen.toNat := by
    rw [← hk]
    exact hi.core.keyLen p hp
  obtain ⟨free', h', ret, hadd, -, -, hi', hout⟩ := addKey_cases hi hlen data
  rw [Ne, hi.ring.contents_eq_nil]
  cases hout with
  | noSlot =>
      refine iff_of_false ?_ (fun hne => hne rfl)
      intro hupd
      obtain ⟨h₁, hadd₁, -⟩ := hupd
      rw [hadd] at hadd₁
      cases hadd₁
  | update hq _ hbs hb =>
      have hused := (hi.core.used _ hq).1
      rw [if_pos (by omega)] at hadd
      obtain ⟨q, hq', hk', hd'⟩ := (hb key data).mpr (by rw [if_pos rfl])
      have hlookup := lookup_present hi'.core hq' hk'
      have hused' := (hi'.core.used q hq').1
      rw [hd'] at hlookup
      refine iff_of_true ⟨h', hadd, ⟨_, by omega, hlookup⟩, hbs, fun k d hne => ?_,
        _, _, hi.ring.contents_eq, hi'.ring.contents_eq, ?_⟩ (List.cons_ne_nil _ _)
      · rw [hb k d, if_neg hne]
      · exact List.perm_append_singleton _ _
  | refuse habsent => exact absurd hk (habsent p hp)
  | insert habsent => exact absurd hk (habsent p hp)

end Reachable

/-- The keys of `oneBucket` and four whose primary bucket is bucket 1. -/
def eightKeys : List (TblOp Nat) :=
  oneBucket ++ [.add [2] 20, .add [3] 30, .add [4] 40, .add [5] 50]

/-- Four keys leave four slots free. -/
theorem readd_updates_iff_oneBucket :
    ∃ h : Tbl Nat, tableAfter oneBucket = some h ∧ Updated h [0] 5 := by
  obtain ⟨h, hafter, hr, -⟩ := tableAfter_reachable oneBucket (by decide)
  obtain ⟨-, -, hfree, -⟩ := oneBucket_refuses hafter
  have hall : (tableAfter oneBucket).all fun h =>
      decide ((cuckoohashLookupData h [0]).2 = some 0) := by decide +kernel
  rw [hafter] at hall
  obtain ⟨free, hi⟩ := hr.inv
  have hb := binds_of_lookup hi.core (of_decide_eq_true hall)
  exact ⟨h, hafter, (readd_updates_iff hr hb 5).mpr hfree⟩

/-- With eight keys in it the table refuses to update one of them. -/
theorem readd_of_full :
    ∃ h : Tbl Nat, h.Reachable ∧ h.Binds [0] 0
      ∧ (∃ h', cuckoohashAddKeyData h [0] 5 = some (h', -ENOSPC))
      ∧ ¬ Updated h [0] 5 := by
  obtain ⟨h, hafter, hr, -⟩ := tableAfter_reachable eightKeys (by decide)
  have hall : (tableAfter eightKeys).all fun h =>
      decide ((cuckoohashLookupData h [0]).2 = some 0
        ∧ (cuckoohashAddKeyData h [0] 5).map (·.2) = some (-ENOSPC)) := by
    decide +kernel
  rw [hafter] at hall
  obtain ⟨hl, hadd⟩ := of_decide_eq_true hall
  obtain ⟨⟨h', ret⟩, hadd, rfl⟩ := Option.map_eq_some_iff.mp hadd
  obtain ⟨free, hi⟩ := hr.inv
  refine ⟨h, hr, binds_of_lookup hi.core hl, ⟨h', hadd⟩, ?_⟩
  intro hupd
  obtain ⟨h₁, hadd₁, -⟩ := hupd
  rw [hadd] at hadd₁
  cases hadd₁

end PktSender.Cuckoo
