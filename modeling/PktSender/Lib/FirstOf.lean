/-
The first of each key.

# The pass

`firsts key l` goes through `l` and keeps an element when none with its key
was kept before. It is what an in-place filter computes that compares each
element with the ones it kept so far. The lemmas come in the order a proof
about such a loop needs them: one more element, then what is kept, that no
key is kept twice, and that every key is. `firsts_filter_eq` says it without
the loop: an element is kept for what is before it in the list.
-/
import Mathlib.Data.List.Induction
import Mathlib.Data.List.Nodup

namespace PktSender.Lib

variable {α κ : Type*} [DecidableEq κ] {key : α → κ} {l : List α} {a b : α}

/-- One element after the ones kept so far. -/
def keepFirst (key : α → κ) (kept : List α) (a : α) : List α :=
  if kept.any fun b => key b = key a then kept else kept ++ [a]

def firsts (key : α → κ) (l : List α) : List α :=
  l.foldl (keepFirst key) []

@[simp]
theorem firsts_nil : firsts key [] = [] :=
  rfl

theorem firsts_concat : firsts key (l ++ [a]) = keepFirst key (firsts key l) a := by
  simp [firsts, List.foldl_append]

theorem mem_keepFirst {kept : List α} (h : b ∈ keepFirst key kept a) :
    b ∈ kept ∨ b = a := by
  unfold keepFirst at h
  split at h
  · left
    exact h
  · simpa using h

theorem mem_of_mem_firsts (h : b ∈ firsts key l) : b ∈ l := by
  induction l using List.reverseRecOn with
  | nil => simp at h
  | append_singleton l a ih =>
      rw [firsts_concat] at h
      rcases mem_keepFirst h with hb | rfl
      · simp [ih hb]
      · simp

/-- No key is kept twice. -/
theorem nodup_map_firsts : ((firsts key l).map key).Nodup := by
  induction l using List.reverseRecOn with
  | nil => simp
  | append_singleton l a ih =>
      rw [firsts_concat, keepFirst]
      split
      case isTrue => exact ih
      case isFalse hnew =>
        rw [List.map_append]
        apply ih.append
        · simp
        · simpa using hnew

/-- Every key is kept. -/
theorem exists_mem_firsts (h : a ∈ l) : ∃ b ∈ firsts key l, key b = key a := by
  induction l using List.reverseRecOn with
  | nil => simp at h
  | append_singleton l c ih =>
      rw [firsts_concat, keepFirst]
      rcases List.mem_append.mp h with hl | hc
      · obtain ⟨b, hb, hkey⟩ := ih hl
        split
        · exact ⟨b, hb, hkey⟩
        · exact ⟨b, by simp [hb], hkey⟩
      · obtain rfl := List.mem_singleton.mp hc
        split
        case isTrue hdup => simpa using hdup
        case isFalse => exact ⟨a, by simp, rfl⟩

/-- Two elements of one key that were kept are one. -/
theorem eq_of_mem_firsts (ha : a ∈ firsts key l) (hb : b ∈ firsts key l)
    (hkey : key a = key b) : a = b :=
  List.inj_on_of_nodup_map nodup_map_firsts ha hb hkey

theorem any_firsts (k : κ) :
    ((firsts key l).any fun b => key b = k) = l.any fun b => key b = k := by
  rw [Bool.eq_iff_iff, List.any_eq_true, List.any_eq_true]
  constructor
  · rintro ⟨b, hb, hkey⟩
    exact ⟨b, mem_of_mem_firsts hb, hkey⟩
  · rintro ⟨a, ha, hkey⟩
    obtain ⟨b, hb, hsame⟩ := @exists_mem_firsts _ _ _ key _ _ ha
    rw [decide_eq_true_eq] at hkey
    exact ⟨b, hb, by rw [hsame, hkey, decide_eq_true rfl]⟩

/-- The first of each key among the elements that pass a test. -/
theorem firsts_filter_eq (ok : α → Bool) :
    firsts key (l.filter ok)
      = (l.zipIdx.filter fun x =>
          ok x.1 && !(l.take x.2).any fun b => ok b && key b = key x.1).map Prod.fst := by
  induction l using List.reverseRecOn with
  | nil => rfl
  | append_singleton l a ih =>
      -- what is before an element does not change when the list grows
      have hsame : (l.zipIdx.filter fun x =>
            ok x.1 && !((l ++ [a]).take x.2).any fun b => ok b && key b = key x.1)
          = l.zipIdx.filter fun x =>
            ok x.1 && !(l.take x.2).any fun b => ok b && key b = key x.1 := by
        apply List.filter_congr
        rintro ⟨b, i⟩ hmem
        have hi : i < l.length := by simpa using List.snd_lt_of_mem_zipIdx hmem
        rw [List.take_append_of_le_length (Nat.le_of_lt hi)]
      rw [List.filter_append, List.zipIdx_append, List.filter_append, List.map_append, hsame, ← ih]
      cases hok : ok a with
      | false => simp [hok]
      | true =>
          have hany := @any_firsts _ _ _ key (l.filter ok) (key a)
          rw [List.any_filter] at hany
          rw [List.filter_singleton, hok, cond_true, firsts_concat, keepFirst, hany]
          split
          next hdup => simp [hok, hdup]
          next hnew => simp [hok, hnew]

end PktSender.Lib
