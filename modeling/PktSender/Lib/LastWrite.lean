/-
Writes to the places of keyed objects, and what is left of them.

An object is created, all its places zero, by the first write to its key;
every write then sets one place of its object. `writes` applies a list of
them in order. In the end an object exists when there was a write to it, and
holds what was written to each of its places last (`writes_eq_some`).

Slots filled one after the other are the other case: the first `n` of them
are a list, and the write to the next one appends (`map_range_update`).
-/
import Mathlib.Data.List.Induction
import Mathlib.Logic.Function.Basic

namespace LastWrite

variable {K L V : Type*} [DecidableEq K] [DecidableEq L] {zero : V}

/-- Set place `l` of object `k`. -/
def write (zero : V) (m : K → Option (L → V)) (k : K) (l : L) (v : V) :
    K → Option (L → V) :=
  Function.update m k
    (some (Function.update ((m k).getD fun _ => zero) l v))

/-- All writes of a list, in order. -/
def writes (zero : V) (m : K → Option (L → V)) (xs : List (K × L × V)) :
    K → Option (L → V) :=
  xs.foldl (fun m x => write zero m x.1 x.2.1 x.2.2) m

/-- The last value written to a place, or zero. -/
def last (zero : V) (xs : List (K × L × V)) (k : K) (l : L) : V :=
  match (xs.filter fun x => x.1 = k ∧ x.2.1 = l).getLast? with
  | some x => x.2.2
  | none => zero

theorem writes_concat (m : K → Option (L → V)) (xs : List (K × L × V))
    (x : K × L × V) :
    writes zero m (xs ++ [x]) = write zero (writes zero m xs) x.1 x.2.1 x.2.2 := by
  unfold writes
  rw [List.foldl_append]
  rfl

theorem last_concat_self (xs : List (K × L × V)) (k : K) (l : L) (v : V) :
    last zero (xs ++ [(k, l, v)]) k l = v := by
  unfold last
  rw [List.filter_append, List.filter_cons_of_pos (by simp), List.filter_nil,
    List.getLast?_append, List.getLast?_singleton]
  rfl

theorem last_concat_of_ne {xs : List (K × L × V)} {x : K × L × V} {k : K}
    {l : L} (h : ¬(x.1 = k ∧ x.2.1 = l)) :
    last zero (xs ++ [x]) k l = last zero xs k l := by
  unfold last
  rw [List.filter_append, List.filter_cons_of_neg (by simpa using h),
    List.filter_nil, List.append_nil]

/-- A place never written to is zero. -/
theorem last_of_forall_ne {xs : List (K × L × V)} {k : K} {l : L}
    (h : ∀ x ∈ xs, ¬(x.1 = k ∧ x.2.1 = l)) : last zero xs k l = zero := by
  have hempty : (xs.filter fun x => x.1 = k ∧ x.2.1 = l) = [] := by
    rw [List.filter_eq_nil_iff]
    intro x hx hkl
    exact h x hx (of_decide_eq_true hkl)
  rw [last, hempty]
  rfl

/-- A place written to with one value only holds it. -/
theorem last_of_forall_eq {xs : List (K × L × V)} {k : K} {l : L} {v : V}
    (hmem : (k, l, v) ∈ xs) (h : ∀ x ∈ xs, x.1 = k → x.2.1 = l → x.2.2 = v) :
    last zero xs k l = v := by
  unfold last
  cases hlast : (xs.filter fun x => x.1 = k ∧ x.2.1 = l).getLast? with
  | none =>
      rw [List.getLast?_eq_none_iff, List.filter_eq_nil_iff] at hlast
      exact absurd (by simp) (hlast _ hmem)
  | some x =>
      obtain ⟨hx, hkl⟩ := List.mem_filter.mp (List.mem_of_getLast? hlast)
      obtain ⟨hk, hl⟩ := of_decide_eq_true hkl
      exact h x hx hk hl

/-- The objects are the ones written to, and each holds the last values. -/
theorem writes_eq (xs : List (K × L × V)) (k : K) :
    writes zero (fun _ => none) xs k
      = if ∃ x ∈ xs, x.1 = k then some (last zero xs k) else none := by
  induction xs using List.reverseRecOn with
  | nil => rfl
  | append_singleton xs x ih =>
      obtain ⟨k', l', v⟩ := x
      rw [writes_concat, write]
      by_cases hk : k = k'
      · subst hk
        rw [Function.update_self, if_pos ⟨(k, l', v), by simp, rfl⟩, ih]
        refine congrArg some (funext fun l => ?_)
        by_cases hl : l = l'
        · subst hl
          rw [Function.update_self, last_concat_self]
        · rw [Function.update_of_ne hl,
            last_concat_of_ne fun h => hl h.2.symm]
          split
          next => rfl
          next hno =>
            -- nothing was written to the object before
            apply Eq.symm
            apply last_of_forall_ne
            intro x hx hkl
            exact hno ⟨x, hx, hkl.1⟩
      · rw [Function.update_of_ne hk, ih]
        have hlast : last zero (xs ++ [(k', l', v)]) k = last zero xs k :=
          funext fun l => last_concat_of_ne fun h => hk h.1.symm
        have hex : (∃ x ∈ xs ++ [(k', l', v)], x.1 = k) ↔ ∃ x ∈ xs, x.1 = k := by
          constructor
          · intro hex
            obtain ⟨x, hx, hxk⟩ := hex
            rcases List.mem_append.mp hx with hx | hx
            · exact ⟨x, hx, hxk⟩
            · rw [List.mem_singleton.mp hx] at hxk
              exact absurd hxk.symm hk
          · intro hex
            obtain ⟨x, hx, hxk⟩ := hex
            exact ⟨x, List.mem_append_left _ hx, hxk⟩
        rw [hlast]
        exact if_congr hex.symm rfl rfl

/-- An object exists when it was written to, and each place of it holds what
was written there last. -/
theorem writes_eq_some {xs : List (K × L × V)} {k : K} {c : L → V} :
    writes zero (fun _ => none) xs k = some c
      ↔ (∃ x ∈ xs, x.1 = k) ∧ c = last zero xs k := by
  rw [writes_eq]
  split
  next h =>
    rw [Option.some.injEq, and_iff_right h]
    exact eq_comm
  next h => exact iff_of_false nofun fun hc => h hc.1

/-- What a write leaves as it was at its place, it leaves as it was. -/
theorem apply_update_of_eq {W : Type*} {f : K → V} {k : K} {v : V} {g : V → W}
    (h : g v = g (f k)) (k' : K) : g (Function.update f k v k') = g (f k') := by
  rw [Function.apply_update (fun _ => g), h, Function.update_eq_self k (fun j => g (f j))]

/-- Filling the next slot. -/
theorem map_range_update {a : ℕ → V} {n : ℕ} {v : V} :
    (List.range (n + 1)).map (Function.update a n v) = (List.range n).map a ++ [v] := by
  rw [List.range_succ, List.map_append]
  congr 1
  · apply List.map_congr_left
    intro k hk
    rw [Function.update_of_ne (Nat.ne_of_lt (List.mem_range.mp hk))]
  · simp

end LastWrite
