/-
Things that move between places.

`Placed all lists place` says that what lies at the places is what there is,
each thing where `place` says and so at one place, and there once. The order
in which things lie is not looked at, so a move is stated up to a permutation
of the two lists it touches (`Placed.move`).
-/
import Mathlib.Data.List.Nodup
import Mathlib.Data.List.Perm.Basic
import Mathlib.Logic.Function.Basic

namespace Places

variable {α ι : Type*} {all : α → Prop} {lists lists' : ι → List α} {place : α → ι}
  {a : α} {i j : ι}

structure Placed (all : α → Prop) (lists : ι → List α) (place : α → ι) : Prop where
  nodup : ∀ i, (lists i).Nodup
  mem : ∀ {i a}, a ∈ lists i ↔ all a ∧ place a = i

theorem Placed.perm (h : Placed all lists place) (hperm : ∀ i, (lists' i).Perm (lists i)) :
    Placed all lists' place where
  nodup i := (hperm i).nodup_iff.mpr (h.nodup i)
  mem := (hperm _).mem_iff.trans h.mem

/-- What lies at one place does not lie at another. -/
theorem Placed.not_mem (h : Placed all lists place) (ha : a ∈ lists i) (hne : j ≠ i) :
    a ∉ lists j := by
  intro hj
  exact hne ((h.mem.mp hj).2.symm.trans (h.mem.mp ha).2)

/-- One thing moves. -/
theorem Placed.move [DecidableEq α] (h : Placed all lists place) (ha : a ∈ lists i)
    (hne : j ≠ i) (hi : (lists' i).Perm ((lists i).erase a)) (hj : (lists' j).Perm (a :: lists j))
    (hother : ∀ k, k ≠ i → k ≠ j → lists' k = lists k) :
    Placed all lists' (Function.update place a j) := by
  have hplace := (h.mem.mp ha).2
  constructor
  case nodup =>
    intro k
    by_cases hki : k = i
    · subst hki
      exact hi.nodup_iff.mpr ((h.nodup k).erase a)
    by_cases hkj : k = j
    · subst hkj
      exact hj.nodup_iff.mpr (List.nodup_cons.mpr ⟨h.not_mem ha hne, h.nodup k⟩)
    · rw [hother k hki hkj]
      exact h.nodup k
  case mem =>
    intro k b
    by_cases hba : b = a
    · subst hba
      rw [Function.update_self]
      by_cases hkj : k = j
      · subst hkj
        exact iff_of_true (hj.mem_iff.mpr List.mem_cons_self) ⟨(h.mem.mp ha).1, rfl⟩
      refine iff_of_false ?_ fun hb => hkj hb.2.symm
      by_cases hki : k = i
      · subst hki
        rw [hi.mem_iff]
        exact (h.nodup k).not_mem_erase
      · rw [hother k hki hkj]
        exact h.not_mem ha hki
    · rw [Function.update_of_ne hba, ← h.mem]
      by_cases hki : k = i
      · subst hki
        rw [hi.mem_iff, List.mem_erase_of_ne hba]
      by_cases hkj : k = j
      · subst hkj
        rw [hj.mem_iff, List.mem_cons, or_iff_right hba]
      · rw [hother k hki hkj]

end Places
