/-
Where numbered things are: held in some place, or given back.

Things are numbered in the order they are made. `Balanced b b'` says that from
`b` to `b'` none was lost and none duplicated: what is held and given back in
`b'`, and was not there in `b`, is what was made in between. The law is an
equation of multisets, so it composes by adding up. With nothing held at both
ends, what was given back in between is what was made, each once
(`Balanced.count_new`).

Several places can be kept in one ledger: a balanced change of one of them is a
balanced change of all (`Balanced.all`).
-/
import Mathlib.Algebra.BigOperators.Group.Multiset.Basic
import Mathlib.Data.Multiset.Range
import Mathlib.Tactic.Abel

namespace Ledger

/-- What is held, what was given back, and how many were made. -/
structure Books where
  held : Multiset ℕ
  freed : Multiset ℕ
  created : ℕ

variable {b b' b'' : Books}

/-- Nothing is lost and nothing duplicated. -/
def Balanced (b b' : Books) : Prop :=
  b'.held + b'.freed + Multiset.range b.created
    = b.held + b.freed + Multiset.range b'.created

theorem Balanced.refl (b : Books) : Balanced b b := rfl

theorem Balanced.trans (h : Balanced b b') (h' : Balanced b' b'') : Balanced b b'' := by
  unfold Balanced at h h' ⊢
  apply add_right_cancel (b := b'.held + b'.freed + Multiset.range b'.created)
  calc b''.held + b''.freed + Multiset.range b.created
        + (b'.held + b'.freed + Multiset.range b'.created)
      = (b''.held + b''.freed + Multiset.range b'.created)
        + (b'.held + b'.freed + Multiset.range b.created) := by abel
    _ = (b'.held + b'.freed + Multiset.range b''.created)
        + (b.held + b.freed + Multiset.range b'.created) := by rw [h, h']
    _ = b.held + b.freed + Multiset.range b''.created
        + (b'.held + b'.freed + Multiset.range b'.created) := by abel

/-- One more is made and held. -/
theorem balanced_create (held freed : Multiset ℕ) (created : ℕ) :
    Balanced ⟨held, freed, created⟩ ⟨created ::ₘ held, freed, created + 1⟩ := by
  unfold Balanced
  rw [Multiset.range_succ, Multiset.cons_add, Multiset.cons_add, Multiset.add_cons]

/-- What is held is given back. -/
theorem balanced_release (held freed : Multiset ℕ) (created : ℕ) :
    Balanced ⟨held, freed, created⟩ ⟨0, held + freed, created⟩ := by
  unfold Balanced
  rw [zero_add]

/-- With nothing held before and after, each thing made in between was given
back once, and no other. -/
theorem Balanced.count_new (h : Balanced b b') (hheld : b.held = 0) (hheld' : b'.held = 0)
    {new : Multiset ℕ} (hfreed : b'.freed = new + b.freed) (n : ℕ) :
    new.count n = if b.created ≤ n ∧ n < b'.created then 1 else 0 := by
  have hall : new + Multiset.range b.created = Multiset.range b'.created := by
    unfold Balanced at h
    rw [hheld, hheld', zero_add, zero_add, hfreed, add_assoc, add_comm b.freed,
      ← add_assoc, add_comm b.freed] at h
    exact add_right_cancel h
  have hcount := congrArg (Multiset.count n) hall
  rw [Multiset.count_add, Multiset.count_eq_of_nodup (Multiset.nodup_range _),
    Multiset.count_eq_of_nodup (Multiset.nodup_range _)] at hcount
  simp only [Multiset.mem_range] at hcount
  split at hcount <;> split at hcount <;> split <;> omega

section Places

variable {ι : Type*} {places : List ι} {f g : ι → Multiset ℕ} {i : ι}

/-- What is held in all of some places. -/
def heldAt (places : List ι) (f : ι → Multiset ℕ) : Multiset ℕ := (places.map f).sum

/-- A change in one place. -/
theorem heldAt_change [DecidableEq ι] (hnodup : places.Nodup) (hmem : i ∈ places)
    (hother : ∀ j, j ≠ i → g j = f j) :
    heldAt places g + f i = heldAt places f + g i := by
  have hrest : (places.erase i).map g = (places.erase i).map f :=
    List.map_congr_left fun j hj => hother j ((hnodup.mem_erase_iff.mp hj).1)
  unfold heldAt
  rw [← List.sum_map_erase f hmem, ← List.sum_map_erase g hmem, hrest]
  abel

theorem heldAt_eq_zero (h : ∀ j ∈ places, f j = 0) : heldAt places f = 0 := by
  unfold heldAt
  rw [List.map_congr_left h]
  simp

/-- A balanced change of one place is one of all. -/
theorem Balanced.all [DecidableEq ι] {freed freed' : Multiset ℕ} {created created' : ℕ}
    (h : Balanced ⟨f i, freed, created⟩ ⟨g i, freed', created'⟩)
    (hnodup : places.Nodup) (hmem : i ∈ places) (hother : ∀ j, j ≠ i → g j = f j) :
    Balanced ⟨heldAt places f, freed, created⟩ ⟨heldAt places g, freed', created'⟩ := by
  have hchange := heldAt_change hnodup hmem hother
  unfold Balanced at h ⊢
  simp only at h ⊢
  apply add_right_cancel (b := f i + g i)
  calc heldAt places g + freed' + Multiset.range created + (f i + g i)
      = (heldAt places g + f i) + (g i + freed' + Multiset.range created) := by abel
    _ = (heldAt places f + g i) + (f i + freed + Multiset.range created') := by
        rw [hchange, h]
    _ = heldAt places f + freed + Multiset.range created' + (f i + g i) := by abel

end Places

end Ledger
