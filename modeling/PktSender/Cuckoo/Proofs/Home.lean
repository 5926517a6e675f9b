/-
A table in which no entry was ever pushed away.

While every key lies in its primary bucket (`AtHome`), a full bucket is the
primary one of four keys (`Core.four_at_home`). So a new key finds room in its
own bucket as long as fewer than four keys of the table share it, and then
nobody has to move: the table stays like that (`addKey_home`).
-/
import PktSender.Cuckoo.Proofs.Room

namespace PktSender.Cuckoo

open PktSender.Ring

variable {D : Type} {h h' : Tbl D} {free rest : List UInt32} {key : List UInt8}

/-- Every key lies in its primary bucket. -/
def Tbl.AtHome (h : Tbl D) : Prop :=
  ∀ p, h.Occupied p → h.buckets.sigs p = sigPair (hash h (h.key p))

/-- The bucket of a key's primary hash. -/
def Tbl.homeOf (h : Tbl D) (key : List UInt8) : UInt32 := hash h key &&& h.bucketBitmask

theorem Tbl.AtHome.bucket (hh : h.AtHome) (hc : Core h rest) {p : Pos} (hp : h.Occupied p) :
    p.1 = h.homeOf (h.key p) := by
  rw [hc.home p hp, hh p hp]
  rfl

/-- A full bucket is the primary one of four keys. -/
theorem Core.four_at_home (hc : Core h rest) (hh : h.AtHome) {b : UInt32}
    (hfull : h.buckets.Full b) : 4 ≤ (h.boundKeys.filter fun k => h.homeOf k = b).length := by
  have hnodup : (bucketEntries.map fun i => h.key (b, i)).Nodup := by
    refine List.Nodup.map ?_ (by decide)
    intro i j heq
    exact (Prod.mk.inj (hc.distinct _ _ (hfull i) (hfull j) heq)).2
  refine (List.subperm_of_subset hnodup fun k hk => ?_).length_le
  obtain ⟨i, -, rfl⟩ := List.mem_map.mp hk
  exact List.mem_filter.mpr ⟨hc.mem_boundKeys.mpr ⟨_, _, hfull i, rfl, rfl⟩,
    decide_eq_true (hh.bucket hc (hfull i)).symm⟩

/-- What is in the slot of no entry does not matter. -/
theorem Tbl.AtHome.setSlot {f : UInt32} (hh : h.AtHome) (hc : Core h rest) (hf : f ∈ rest)
    (k : KeySlot D) : (h.setSlot f k).AtHome := by
  intro p hp
  have hsame : (h.setSlot f k).key p = h.key p :=
    congrArg KeySlot.key (hc.slot_setSlot_rest hf hp)
  rw [hsame]
  exact hh p hp

/-- A new entry for the key in its slot. -/
theorem Filled.atHome {p₀ : Pos} {f : UInt32} (hf : Filled h h' p₀ f) (hh : h.AtHome) :
    h'.AtHome := by
  intro p hp
  by_cases hp₀ : p = p₀
  · subst hp₀
    rw [hf.sigs_self, hf.key_self.1, hf.same.hash_eq]
  · rw [hf.sigs_ne hp₀, (hf.key_ne hp₀).1, hf.same.hash_eq]
    exact hh p ((hf.occ_ne hp₀).mp hp)

/-- A new key for whose bucket there is room goes there, and nothing else
moves. -/
theorem addKey_home (hi : Inv h free []) (hh : h.AtHome) (data : D)
    (hno : ∀ p, h.Occupied p → h.key p ≠ key) (hfree : free ≠ [])
    (hroom : (h.boundKeys.filter fun k => h.homeOf k = h.homeOf key).length < 4) :
    ∃ h', cuckoohashAddKeyData h key data = some (h', 0) ∧ h'.AtHome := by
  have hfull : ¬ h.buckets.Full (h.homeOf key) := fun hfull =>
    Nat.not_lt.mpr (hi.core.four_at_home hh hfull) hroom
  obtain ⟨f, free, rfl⟩ := List.exists_cons_of_ne_nil hfree
  obtain ⟨r, hi', habsent⟩ := addKeyWithHash_absent hi hno data
  obtain ⟨i, hfound⟩ := Option.ne_none_iff_exists'.mp
    fun hnone => hfull (freeEntry_eq_none.mp hnone)
  have hmem : f ∈ free ++ [f] := List.mem_append_right _ (List.mem_singleton.mpr rfl)
  -- the table with the key in its slot
  have hhome : ((h.withRing r (.get 4)).setSlot f { pdata := data, key := key }).AtHome :=
    Tbl.AtHome.setSlot (show (h.withRing r (.get 4)).AtHome from hh) hi'.core hmem _
  have hslot : ((h.withRing r (.get 4)).setSlot f { pdata := data, key := key }).slot f
      = { pdata := data, key := key } := by
    rw [hi'.core.slot_setSlot hi'.held hi'.held, if_pos rfl]
  have hfill := Filled.setEntry
    (h := (h.withRing r (.get 4)).setSlot f { pdata := data, key := key }) f (h.homeOf key) i
  have hafter := hfill.atHome hhome
  rw [hslot] at hafter
  refine ⟨_, ?_, hafter⟩
  have hadd : addKeyWithHash h key (hash h key) data
      = some (((h.withRing r (.get 4)).setSlot f { pdata := data, key := key }).setEntry
          (h.homeOf key) i (hash h key) (hashSecondary (hash h key)) f, toInt32 (f - 1)) := by
    rw [habsent]
    unfold insertEntry
    rw [show (((h.withRing r (.get 4)).setSlot f { pdata := data, key := key }).buckets
      (hash h key &&& h.bucketBitmask)).freeEntry = some i from hfound]
    rfl
  have hret := hi'.core.ret_eq hi'.held
  have hpos := hi'.held.1
  rw [cuckoohashAddKeyData, hadd, hret, Option.map_some]
  simp only
  rw [if_pos (by omega)]
  rfl

end PktSender.Cuckoo
