/-
What `cuckoohash_iterate` visits.

A cursor `c` stands for the position `posOf c`, and one call goes to the
first non-empty position from there. `Tbl.entriesFrom c` lists the cursors
of all of them; a call at the end of the list returns an error, and any
other call returns the head of the list and leaves the cursor at its tail.
-/
import PktSender.Cuckoo.Proofs.Ops

namespace PktSender.Cuckoo

open PktSender.Ring

variable {D : Type} {h : Tbl D}

/-- The non-empty positions from a cursor on. -/
def Tbl.entriesFrom (h : Tbl D) (c : Nat) : List Nat :=
  (List.range' c (4 * h.numBuckets.toNat - c)).filter fun k =>
    h.buckets.Occupied (posOf k)

theorem mem_entriesFrom {c k : Nat} :
    k ∈ h.entriesFrom c
      ↔ c ≤ k ∧ k < 4 * h.numBuckets.toNat ∧ h.Occupied (posOf k) := by
  unfold Tbl.entriesFrom
  rw [List.mem_filter, List.mem_range'_1, decide_eq_true_eq]
  constructor
  · intro hex
    obtain ⟨⟨h1, h2⟩, hocc⟩ := hex
    exact ⟨h1, by omega, hocc⟩
  · intro hex
    obtain ⟨h1, h2, hocc⟩ := hex
    exact ⟨⟨h1, by omega⟩, hocc⟩

/-- Cutting a filtered range at its first element. -/
theorem filter_range'_of_find? {p : Nat → Bool} {c n k : Nat}
    (hf : (List.range' c n).find? p = some k) :
    (List.range' c n).filter p
      = k :: (List.range' (k + 1) (c + n - (k + 1))).filter p := by
  induction n generalizing c with
  | zero => cases hf
  | succ n ih =>
      rw [List.range'_succ] at hf ⊢
      by_cases hp : p c = true
      · rw [List.find?_cons_of_pos hp, Option.some.injEq] at hf
        subst hf
        rw [List.filter_cons_of_pos hp,
          show c + (n + 1) - (c + 1) = n by omega]
      · rw [List.find?_cons_of_neg hp] at hf
        rw [List.filter_cons_of_neg hp, ih hf,
          show c + 1 + n - (k + 1) = c + (n + 1) - (k + 1) by omega]

/-- The position of a cursor, as the code computes it. -/
theorem sigs_posOf {c : Nat} (hc : c < 2 ^ 32) (i : Fin 4)
    (hi : i.val = (UInt32.ofNat c).toNat % 4) :
    (UInt32.ofNat c / 4, i) = posOf c := by
  have hnat : (UInt32.ofNat c).toNat = c := by
    rw [UInt32.toNat_ofNat', Nat.mod_eq_of_lt hc]
  refine Prod.ext ?_ (Fin.ext ?_)
  · apply UInt32.toNat_inj.mp
    show _ = (UInt32.ofNat (c / 4)).toNat
    rw [UInt32.toNat_div, hnat, UInt32.toNat_ofNat',
      Nat.mod_eq_of_lt (by omega)]
    rfl
  · rw [hnat] at hi
    exact hi

/-- The skipping loop finds the first non-empty position. -/
theorem skipEmpty_eq {fuel c : Nat} (hle : c + fuel < 2 ^ 32) :
    skipEmpty h fuel (UInt32.ofNat c)
      = ((List.range' c fuel).find? fun k =>
          decide (h.buckets.Occupied (posOf k))).map UInt32.ofNat := by
  induction fuel generalizing c with
  | zero => rfl
  | succ fuel ih =>
      have hpos := sigs_posOf (c := c) (by omega)
        ⟨(UInt32.ofNat c).toNat % 4, Nat.mod_lt _ (by decide)⟩ rfl
      have hsucc : UInt32.ofNat c + 1 = UInt32.ofNat (c + 1) :=
        (UInt32.ofNat_add c 1).symm
      have hread : ((h.buckets (UInt32.ofNat c / 4)).signatures
          ⟨(UInt32.ofNat c).toNat % 4, Nat.mod_lt _ (by decide)⟩)
            = h.buckets.sigs (posOf c) := by
        rw [← hpos]
        rfl
      rw [skipEmpty, List.range'_succ, hread]
      by_cases hocc : h.buckets.Occupied (posOf c)
      · rw [if_neg (by simpa [Buckets.Occupied] using hocc),
          List.find?_cons_of_pos (by simpa using hocc), Option.map_some]
      · rw [if_pos (by simpa [Buckets.Occupied] using hocc),
          List.find?_cons_of_neg (by simpa using hocc), hsucc, ih (by omega)]

/-- The end of the table, as the code computes it. -/
theorem totalEntries_eq :
    h.numBuckets * 4 = UInt32.ofNat (4 * h.numBuckets.toNat) := by
  apply UInt32.toNat_inj.mp
  rw [UInt32.toNat_mul, UInt32.toNat_ofNat', Nat.mul_comm]
  rfl

/-- A cursor inside the table goes to the first entry of the list, if there
is one. -/
theorem skipEmpty_of_lt {c : Nat} (hfew : 4 * h.numBuckets.toNat < 2 ^ 32)
    (hlt : c < 4 * h.numBuckets.toNat) :
    ¬UInt32.ofNat c ≥ h.numBuckets * 4
      ∧ skipEmpty h (h.numBuckets * 4 - UInt32.ofNat c).toNat (UInt32.ofNat c)
        = ((List.range' c (4 * h.numBuckets.toNat - c)).find? fun k =>
            decide (h.buckets.Occupied (posOf k))).map UInt32.ofNat := by
  have hc : (UInt32.ofNat c).toNat = c := by
    rw [UInt32.toNat_ofNat', Nat.mod_eq_of_lt (by omega)]
  have htotal : (UInt32.ofNat (4 * h.numBuckets.toNat)).toNat
      = 4 * h.numBuckets.toNat := by
    rw [UInt32.toNat_ofNat', Nat.mod_eq_of_lt hfew]
  have hle : UInt32.ofNat c ≤ UInt32.ofNat (4 * h.numBuckets.toNat) := by
    rw [UInt32.le_iff_toNat_le, hc, htotal]
    omega
  rw [totalEntries_eq, UInt32.toNat_sub_of_le _ _ hle, hc, htotal]
  constructor
  · rw [ge_iff_le, UInt32.le_iff_toNat_le, hc, htotal]
    omega
  · exact skipEmpty_eq (by omega)

/-- At the end of the list iterate returns an error and leaves the cursor at
the end of the table. -/
theorem iterate_nil {c : Nat} (hfew : 4 * h.numBuckets.toNat < 2 ^ 32)
    (hle : c ≤ 4 * h.numBuckets.toNat) (hnil : h.entriesFrom c = []) :
    cuckoohashIterate h (UInt32.ofNat c)
      = (-ENOENT, none, UInt32.ofNat (4 * h.numBuckets.toNat)) := by
  rcases Nat.eq_or_lt_of_le hle with rfl | hlt
  · rw [cuckoohashIterate, if_pos (UInt32.le_of_eq totalEntries_eq)]
  · obtain ⟨hin, hskip⟩ := skipEmpty_of_lt hfew hlt
    have hfind : ((List.range' c (4 * h.numBuckets.toNat - c)).find? fun k =>
        decide (h.buckets.Occupied (posOf k))) = none := by
      rw [List.find?_eq_none]
      intro k hk hocc
      have hmem : k ∈ h.entriesFrom c := List.mem_filter.mpr ⟨hk, hocc⟩
      rw [hnil] at hmem
      exact List.not_mem_nil hmem
    rw [cuckoohashIterate, if_neg hin, hskip, hfind, ← totalEntries_eq]
    rfl

/-- Otherwise it returns the first entry of the list and goes on behind
it. -/
theorem iterate_cons {c k : Nat} {ks : List Nat}
    (hfew : 4 * h.numBuckets.toNat < 2 ^ 32)
    (hcons : h.entriesFrom c = k :: ks) :
    cuckoohashIterate h (UInt32.ofNat c)
        = (toInt32 (h.buckets.idx (posOf k) - 1),
          some (h.key (posOf k), h.datum (posOf k)), UInt32.ofNat (k + 1))
      ∧ h.entriesFrom (k + 1) = ks ∧ c ≤ k ∧ k < 4 * h.numBuckets.toNat := by
  have hmem : k ∈ h.entriesFrom c := hcons ▸ List.mem_cons_self
  obtain ⟨hck, hk, -⟩ := mem_entriesFrom.mp hmem
  obtain ⟨hin, hskip⟩ := skipEmpty_of_lt hfew (Nat.lt_of_le_of_lt hck hk)
  have hfind : ((List.range' c (4 * h.numBuckets.toNat - c)).find? fun k =>
      decide (h.buckets.Occupied (posOf k))) = some k := by
    rw [← List.head?_filter]
    exact congrArg List.head? hcons
  have htail := filter_range'_of_find? hfind
  rw [show c + (4 * h.numBuckets.toNat - c) = 4 * h.numBuckets.toNat by omega]
    at htail
  have hks : h.entriesFrom (k + 1) = ks :=
    (List.cons.inj (htail.symm.trans hcons)).2
  have hpos := sigs_posOf (c := k) (by omega)
    ⟨(UInt32.ofNat k).toNat % 4, Nat.mod_lt _ (by decide)⟩ rfl
  refine ⟨?_, hks, hck, hk⟩
  rw [cuckoohashIterate, if_neg hin, hskip, hfind]
  have hsucc : UInt32.ofNat k + 1 = UInt32.ofNat (k + 1) :=
    (UInt32.ofNat_add k 1).symm
  rw [← hsucc, ← hpos]
  rfl

end PktSender.Cuckoo
