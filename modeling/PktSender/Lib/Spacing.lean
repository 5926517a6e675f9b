/-
Events that pay for the time up to the next one.

# Spacing

`Spaced t cost l`: each event of `l` comes more than its predecessor's cost
after its predecessor. It is a condition on neighbours only; `Spaced.window`
says what it gives over any stretch of the list, which is the form a rate
limit is promised in.
-/
import Mathlib.Algebra.BigOperators.Group.List.Basic
import Mathlib.Algebra.Order.Group.Defs
import Mathlib.Data.List.Chain
import Mathlib.Tactic.Abel

namespace PktSender.Lib

variable {α K : Type*} [AddCommGroup K] [PartialOrder K]
variable {t cost : α → K} {l : List α} {a : α}

/-- Each event comes after the time its predecessor has paid for. -/
def Spaced (t cost : α → K) (l : List α) : Prop :=
  l.IsChain fun a b => t a + cost a < t b

theorem Spaced.nil : Spaced t cost [] :=
  List.isChain_nil

/-- One more event in front, when the first one comes late enough. -/
theorem Spaced.cons (h : Spaced t cost l)
    (hd : ∀ b ∈ l.head?, t a + cost a < t b) : Spaced t cost (a :: l) := by
  apply List.isChain_cons.mpr
  exact ⟨hd, h⟩

/-- One more event behind, when it comes late enough. -/
theorem Spaced.concat (h : Spaced t cost l)
    (hd : ∀ b ∈ l.getLast?, t b + cost b < t a) : Spaced t cost (l ++ [a]) := by
  apply List.isChain_append.mpr
  refine ⟨h, List.isChain_singleton a, ?_⟩
  intro b hb a' ha'
  cases ha'
  exact hd b hb

theorem Spaced.succ {i : ℕ} (h : Spaced t cost l) (hi : i + 1 < l.length) :
    t l[i] + cost l[i] < t l[i + 1] :=
  List.isChain_iff_getElem.mp h i hi

/-- Over any stretch, the costs add up to less than the time that passes. -/
theorem Spaced.window [IsOrderedAddMonoid K] {i j : ℕ} (h : Spaced t cost l) (hij : i < j)
    (hj : j < l.length) :
    (((l.drop i).take (j - i)).map cost).sum < t l[j] - t l[i] := by
  obtain ⟨n, rfl⟩ : ∃ n, j = i + n + 1 := ⟨j - i - 1, by omega⟩
  have hn : i + n + 1 - i = n + 1 := by omega
  rw [hn]
  induction n with
  | zero =>
      have hstep := h.succ hj
      have htake : (l.drop i).take (0 + 1) = [l[i]] := by
        simp [List.take_one, List.getElem?_eq_getElem (by omega : i < l.length)]
      rw [htake, lt_sub_iff_add_lt']
      simpa using hstep
  | succ n ih =>
      have hstep := h.succ hj
      have hlt := ih (by omega) (by omega) (by omega)
      have htake : (l.drop i).take (n + 1 + 1)
          = (l.drop i).take (n + 1) ++ [l[i + n + 1]] := by
        rw [List.take_add_one]
        simp [List.getElem?_eq_getElem (by omega : i + n + 1 < l.length), ← add_assoc]
      rw [htake, List.map_append, List.sum_append]
      calc ((((l.drop i).take (n + 1)).map cost).sum + ([l[i + n + 1]].map cost).sum)
          < (t l[i + n + 1] - t l[i]) + cost l[i + n + 1] := by
            simpa using hlt
        _ = (t l[i + n + 1] + cost l[i + n + 1]) - t l[i] := by abel
        _ < t l[i + (n + 1) + 1] - t l[i] := by
            apply sub_lt_sub_right
            exact hstep

end PktSender.Lib
