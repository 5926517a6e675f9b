/-
Visits that go round a list.

`Rounds l seen` says that what was visited is the list `l`, any number of times
over, and a beginning of it. Every element is then visited as often as every
other, up to one (`Rounds.count_le`).
-/
import Mathlib.Data.List.Count
import Mathlib.Data.List.Flatten
import Mathlib.Data.List.Nodup

namespace RoundRobin

variable {α : Type*} {l seen : List α}

/-- So many whole rounds, and so many elements of the next. -/
def rounds (l : List α) (n k : ℕ) : List α := (List.replicate n l).flatten ++ l.take k

/-- What was visited is whole rounds and a beginning of one. -/
def Rounds (l seen : List α) : Prop := ∃ n k, seen = rounds l n k

theorem rounds_zero (l : List α) : rounds l 0 0 = [] := by
  simp [rounds]

/-- The next element of the list. -/
theorem rounds_succ {n k : ℕ} {a : α} (h : l[k]? = some a) :
    rounds l n k ++ [a] = rounds l n (k + 1) := by
  rw [rounds, rounds, List.append_assoc, List.take_add_one, h]
  rfl

/-- A round that came to the end is a whole one. -/
theorem rounds_done {n k : ℕ} (h : l[k]? = none) : rounds l n k = rounds l (n + 1) 0 := by
  have hlen : l.length ≤ k := List.getElem?_eq_none_iff.mp h
  rw [rounds, rounds, List.take_of_length_le hlen, List.replicate_succ', List.flatten_append,
    List.take_zero, List.append_nil, List.flatten_singleton]

variable [DecidableEq α]

theorem count_rounds (n k : ℕ) (a : α) :
    (rounds l n k).count a = n * l.count a + (l.take k).count a := by
  rw [rounds, List.count_append]
  congr 1
  induction n with
  | zero => simp
  | succ n ih =>
      rw [List.replicate_succ, List.flatten_cons, List.count_append, ih, Nat.succ_mul,
        Nat.add_comm]

/-- No element is ahead of another by more than one visit. -/
theorem Rounds.count_le (h : Rounds l seen) (hnodup : l.Nodup) {a b : α} (hb : b ∈ l) :
    seen.count a ≤ seen.count b + 1 := by
  obtain ⟨n, k, rfl⟩ := h
  have ha : l.count a ≤ 1 := List.nodup_iff_count_le_one.mp hnodup a
  have hak : (l.take k).count a ≤ 1 :=
    List.nodup_iff_count_le_one.mp (hnodup.sublist (List.take_sublist k l)) a
  have hone : l.count b = 1 := List.count_eq_one_of_mem hnodup hb
  have hna : n * l.count a ≤ n := by
    simpa using Nat.mul_le_mul_left n ha
  rw [count_rounds, count_rounds, hone]
  omega

end RoundRobin
