/-
Byte strings in memory.

`store mem off bs` puts a string at an address, `load` reads one back. A
program that builds a string where it is to lie in the end clears a region
and then stores its parts; `store_patch` turns such a store into one of the
whole region with the part replaced (`patch`), and `store_append` joins two
regions, so that in the end there is one store of one string: what is read
back from it is a part of that string (`load_store`), and what lies outside
is as before (`store_outside`).
-/
import PktSender.Lib.Circular
import Mathlib.Data.List.GetD

namespace Memory

open Circular (load)

variable {α : Type*} {mem : ℕ → α} {off k n : ℕ} {bs cs : List α}

/-- Memory with a string from an address on. -/
def store (mem : ℕ → α) (off : ℕ) (bs : List α) : ℕ → α :=
  fun i => if off ≤ i then bs.getD (i - off) (mem i) else mem i

/-- A string with the part from position `k` on replaced. -/
def patch (bs : List α) (k : ℕ) (cs : List α) : List α :=
  bs.take k ++ cs ++ bs.drop (k + cs.length)

theorem length_patch (hle : k + cs.length ≤ bs.length) :
    (patch bs k cs).length = bs.length := by
  unfold patch
  rw [List.length_append, List.length_append, List.length_take, List.length_drop]
  omega

theorem store_outside {i : ℕ} (h : i < off ∨ off + bs.length ≤ i) :
    store mem off bs i = mem i := by
  unfold store
  split
  next hle =>
    rw [List.getD_eq_default]
    omega
  next => rfl

theorem store_inside (hk : k < bs.length) : store mem off bs (off + k) = bs[k] := by
  unfold store
  rw [if_pos (Nat.le_add_right off k), Nat.add_sub_cancel_left, List.getD_eq_getElem _ _ hk]

/-- Behind the part the string is as it was. -/
theorem getD_patch (hle : k + cs.length ≤ bs.length) (j : ℕ) (d : α) :
    (patch bs k cs).getD j d
      = if k ≤ j then cs.getD (j - k) (bs.getD j d) else bs.getD j d := by
  have htake : (bs.take k).length = k := by
    rw [List.length_take]
    omega
  unfold patch
  rw [List.append_assoc]
  split
  next hkj =>
    rw [List.getD_append_right _ _ _ _ (by omega), htake]
    by_cases hin : j - k < cs.length
    · rw [List.getD_append _ _ _ _ hin, List.getD_eq_getElem _ _ hin,
        List.getD_eq_getElem _ _ hin]
    · rw [List.getD_append_right _ _ _ _ (by omega), List.getD_eq_default (l := cs) _ (by omega),
        List.getD_eq_getElem?_getD, List.getElem?_drop, List.getD_eq_getElem?_getD]
      congr 2
      omega
  next hjk =>
    rw [List.getD_append _ _ _ _ (by omega), List.getD_eq_getElem?_getD, List.getElem?_take,
      if_pos (by omega), List.getD_eq_getElem?_getD]

/-- A store of a part of a string that was just stored. -/
theorem store_patch (hle : k + cs.length ≤ bs.length) :
    store (store mem off bs) (off + k) cs = store mem off (patch bs k cs) := by
  funext i
  unfold store
  by_cases hi : off ≤ i
  · obtain ⟨j, rfl⟩ := Nat.exists_eq_add_of_le hi
    rw [if_pos hi, if_pos hi, Nat.add_sub_cancel_left, getD_patch hle,
      Nat.add_sub_add_left]
    by_cases hkj : k ≤ j
    · rw [if_pos (Nat.add_le_add_left hkj off), if_pos hkj]
    · rw [if_neg (by omega), if_neg hkj]
  · rw [if_neg (by omega), if_neg hi, if_neg hi]

/-- Stores of parts, each at its position. -/
def storeParts (mem : ℕ → α) (off : ℕ) (parts : List (ℕ × List α)) : ℕ → α :=
  parts.foldl (fun mem part => store mem (off + part.1) part.2) mem

/-- The same replacements. -/
def patchParts (bs : List α) (parts : List (ℕ × List α)) : List α :=
  parts.foldl (fun bs part => patch bs part.1 part.2) bs

theorem storeParts_store {parts : List (ℕ × List α)}
    (hle : ∀ part ∈ parts, part.1 + part.2.length ≤ bs.length) :
    storeParts (store mem off bs) off parts = store mem off (patchParts bs parts) := by
  induction parts generalizing bs with
  | nil => rfl
  | cons part parts ih =>
      have hpart := hle part List.mem_cons_self
      unfold storeParts patchParts
      rw [List.foldl_cons, List.foldl_cons, store_patch hpart]
      refine ih fun part' hmem => ?_
      rw [length_patch hpart]
      exact hle part' (List.mem_cons_of_mem _ hmem)

/-- A store behind another one. -/
theorem store_append :
    store (store mem off bs) (off + bs.length) cs = store mem off (bs ++ cs) := by
  funext i
  unfold store
  by_cases hi : off ≤ i
  · obtain ⟨j, rfl⟩ := Nat.exists_eq_add_of_le hi
    rw [if_pos hi, if_pos hi, Nat.add_sub_cancel_left, Nat.add_sub_add_left]
    by_cases hj : bs.length ≤ j
    · rw [if_pos (Nat.add_le_add_left hj off), List.getD_append_right _ _ _ _ hj,
        List.getD_eq_default (l := bs) _ hj]
    · rw [if_neg (by omega), List.getD_append _ _ _ _ (by omega)]
  · rw [if_neg (by omega), if_neg hi, if_neg hi]

/-- A store over the first part of a longer string. -/
theorem store_over {as : List α} (hlen : cs.length = as.length) :
    store (store mem off (as ++ bs)) off cs = store mem off (cs ++ bs) := by
  have hle : 0 + cs.length ≤ (as ++ bs).length := by
    rw [List.length_append]
    omega
  have h := @store_patch _ mem off 0 (as ++ bs) cs hle
  rw [Nat.add_zero] at h
  rw [h, patch, List.take_zero, List.nil_append, Nat.zero_add, hlen, List.drop_left]

/-- What is there anyway can be stored. -/
theorem store_load : store mem off (load mem off n) = mem := by
  funext i
  unfold store
  split
  next hle =>
    obtain ⟨j, rfl⟩ := Nat.exists_eq_add_of_le hle
    rw [Nat.add_sub_cancel_left]
    by_cases hj : j < (load mem off n).length
    · rw [List.getD_eq_getElem _ _ hj, Circular.load_getElem]
    · rw [List.getD_eq_default _ _ (Nat.le_of_not_lt hj)]
  next => rfl

/-- What is read from a stored string. -/
theorem load_store (hle : k + n ≤ bs.length) :
    load (store mem off bs) (off + k) n = (bs.drop k).take n := by
  have hlen : ((bs.drop k).take n).length = n := by
    rw [List.length_take, List.length_drop]
    omega
  apply List.ext_getElem
  · rw [Circular.load_length, hlen]
  · intro i hi hi'
    rw [hlen] at hi'
    rw [Circular.load_getElem, List.getElem_take, List.getElem_drop, Nat.add_assoc,
      store_inside]

theorem load_store_self : load (store mem off bs) off bs.length = bs := by
  have h := @load_store _ mem off 0 bs.length bs (Nat.zero_add _).le
  rwa [Nat.add_zero, List.drop_zero, List.take_length] at h

end Memory
