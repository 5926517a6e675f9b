/-
`__check_mapping` against a filter that is not in place.

The rounds never leave the array, since what is kept is not more than what was
read (`checkRounds_some`); what they keep is a mapping that is valid where no
valid one before it in the list has its port and job (`validMappings_eq`). The
second loop fills the array with measurement mappings (`addMeasurement_eq`);
when the first left no room, it has none to write
(`addMeasurement_full`).
-/
import PktSender.Mapping.Proofs.Check

namespace PktSender.Mapping

open Port (Eal Job portIsEnabled)

variable {eal : Eal} {g : Main} {ports : Port.State}

-- ================================================================ the filter

/-- A mapping of an enabled port to an enabled lcore that is not the
measurement lcore. -/
def Valid (eal : Eal) (g : Main) (ports : Port.State) (m : LcoreParams) : Prop :=
  m.portId < g.nbPorts ∧ portIsEnabled ports m.portId ∧
    eal.rteLcoreIsEnabled m.lcoreId ∧ m.lcoreId ≠ g.statLcore

instance : DecidablePred (Valid eal g ports) := fun m =>
  inferInstanceAs (Decidable (m.portId < g.nbPorts ∧ portIsEnabled ports m.portId ∧
    eal.rteLcoreIsEnabled m.lcoreId ∧ m.lcoreId ≠ g.statLcore))

/-- The valid mappings of a list, in its order, without those whose port and
job an earlier valid one has. -/
def firstValid (eal : Eal) (g : Main) (ports : Port.State) (l : List LcoreParams) :
    List LcoreParams :=
  (l.zipIdx.filter fun x : LcoreParams × ℕ => decide (Valid eal g ports x.1
    ∧ ∀ b ∈ l.take x.2, Valid eal g ports b → b.key ≠ x.1.key)).map Prod.fst

theorem validMappings_eq (l : List LcoreParams) :
    validMappings eal g ports l = firstValid eal g ports l := by
  rw [validMappings, firstValid, Lib.firsts_filter_eq]
  congr 1
  apply List.filter_congr
  rintro ⟨m, i⟩ _
  have hok : ∀ b, mappingOk eal g ports b = true ↔ Valid eal g ports b := fun b => mappingOk_iff
  rw [Bool.eq_iff_iff]
  simp only [Bool.and_eq_true, Bool.not_eq_true', ← Bool.not_eq_true, List.any_eq_true, hok,
    decide_eq_true_eq, not_exists, not_and]

-- ============================================================ the first loop

theorem checkRound_some {i : ℕ} {st : ParamsArray × ℕ} (hi : i < maxLcoreParams)
    (hle : st.2 ≤ i) : ∃ st', checkRound eal g ports st i = some st' := by
  obtain ⟨a, realCnt⟩ := st
  simp only at hle
  unfold checkRound
  rw [if_neg (Nat.not_le.mpr hi)]
  simp only
  split
  next => exact ⟨_, rfl⟩
  next =>
    split
    next => exact ⟨_, rfl⟩
    next =>
      split
      next =>
        rw [store, if_pos (Nat.lt_of_le_of_lt hle hi)]
        exact ⟨_, rfl⟩
      next => exact ⟨_, rfl⟩

theorem checkRounds_some {a₀ : ParamsArray} {n : ℕ} (hn : n ≤ maxLcoreParams) :
    ∃ st, (List.range n).foldlM (checkRound eal g ports) (a₀, 0) = some st := by
  induction n with
  | zero => exact ⟨_, rfl⟩
  | succ n ih =>
      obtain ⟨st, hst⟩ := ih (Nat.le_of_succ_le hn)
      obtain ⟨st', hst'⟩ := @checkRound_some eal g ports n st hn
        (checkRounds_filtered hst).realCnt_le
      refine ⟨st', ?_⟩
      rw [List.range_succ, List.foldlM_append, hst]
      simpa using hst'

-- =========================================================== the second loop

/-- The measurement mappings, one for each enabled port. -/
def measurements (g : Main) (ports : Port.State) : List LcoreParams :=
  ((Port.portIds g.nbPorts).filter (portIsEnabled ports)).map (measurement g)

/-- As far as the array reaches. -/
theorem addMeasurement_eq {is : List UInt8} {st : ParamsArray × ℕ}
    (hlt : st.2 < maxLcoreParams) :
    ∃ st', addMeasurement g ports is st = some st'
      ∧ (List.range st'.2).map st'.1 = (List.range st.2).map st.1
        ++ ((is.filter (portIsEnabled ports)).map (measurement g)).take
          (maxLcoreParams - st.2) := by
  induction is generalizing st with
  | nil => exact ⟨st, rfl, by simp⟩
  | cons i is ih =>
      obtain ⟨a, realCnt⟩ := st
      simp only at hlt
      unfold addMeasurement
      cases hon : portIsEnabled ports i with
      | false =>
          obtain ⟨st', hst', heq⟩ := @ih (a, realCnt) hlt
          exact ⟨st', hst', by simpa [hon] using heq⟩
      | true =>
          have hroom : maxLcoreParams - realCnt = (maxLcoreParams - (realCnt + 1)) + 1 := by omega
          rw [store, if_pos hlt]
          simp only [Bool.not_true, Bool.false_eq_true, if_false, Option.bind_some]
          split
          next hfull =>
            -- the array is full
            refine ⟨_, rfl, ?_⟩
            rw [show maxLcoreParams - realCnt = 1 by omega]
            simpa [hon, measurement] using LastWrite.map_range_update
          next hrest =>
            obtain ⟨st', hst', heq⟩ :=
              @ih (Function.update a realCnt (measurement g i), realCnt + 1)
                (Nat.not_le.mp hrest)
            refine ⟨st', hst', ?_⟩
            rw [heq, hroom]
            simp only
            rw [LastWrite.map_range_update]
            simp [hon]

/-- Behind the end of the array. -/
theorem addMeasurement_full {is : List UInt8} {st : ParamsArray × ℕ}
    (hfull : st.2 = maxLcoreParams) :
    addMeasurement g ports is st
      = if is.any (portIsEnabled ports) then none else some st := by
  obtain ⟨a, realCnt⟩ := st
  simp only at hfull
  induction is with
  | nil => rfl
  | cons i is ih =>
      unfold addMeasurement
      cases hon : portIsEnabled ports i with
      | false => simpa [hon] using ih
      | true => simp [hon, store, hfull]

-- ============================================================ the whole check

/-- What the first loop leaves. -/
theorem checkRounds_kept {n₀ : ℕ} (hlen : n₀ ≤ maxLcoreParams) (eal : Eal) (g : Main)
    (ports : Port.State) (a₀ : ParamsArray) :
    ∃ a n, (List.range n₀).foldlM (checkRound eal g ports) (a₀, 0) = some (a, n)
      ∧ (List.range n).map a = firstValid eal g ports ((List.range n₀).map a₀) ∧ n ≤ n₀ := by
  obtain ⟨⟨a, n⟩, hrounds⟩ := @checkRounds_some eal g ports a₀ n₀ hlen
  obtain ⟨hkept, -, hle⟩ := checkRounds_filtered hrounds
  rw [validMappings_eq] at hkept
  exact ⟨a, n, hrounds, hkept, hle⟩

section Loops

variable {a₀ a : ParamsArray} {n₀ n : ℕ}

theorem checkMapping_room
    (hrounds : (List.range n₀).foldlM (checkRound eal g ports) (a₀, 0) = some (a, n))
    (hkept : (List.range n).map a = firstValid eal g ports ((List.range n₀).map a₀))
    (hlt : n < maxLcoreParams) :
    ∃ p, checkMapping eal g ports { lcoreParams := some a₀, nbLcoreParams := n₀ } = some p
      ∧ p.lcoreParams.isSome
      ∧ p.entries = firstValid eal g ports ((List.range n₀).map a₀)
        ++ (measurements g ports).take (maxLcoreParams - n)
      ∧ p.nbLcoreParams = (firstValid eal g ports ((List.range n₀).map a₀)).length
        + ((measurements g ports).take (maxLcoreParams - n)).length := by
  obtain ⟨⟨a', n'⟩, hadd, heq⟩ :=
    @addMeasurement_eq g ports (Port.portIds g.nbPorts) (a, n) hlt
  rw [hkept] at heq
  have hcheck : checkMapping eal g ports { lcoreParams := some a₀, nbLcoreParams := n₀ }
      = some { lcoreParams := some a', nbLcoreParams := n' } := by
    simp only [checkMapping, checkArray, hrounds, Option.bind_some, hadd, Option.map_some]
  refine ⟨_, hcheck, rfl, heq, ?_⟩
  have hcount := congrArg List.length heq
  rw [List.length_map, List.length_range, List.length_append] at hcount
  exact hcount

/-- Without room the first enabled port is written behind the array. -/
theorem checkMapping_full
    (hrounds : (List.range n₀).foldlM (checkRound eal g ports) (a₀, 0) = some (a, n))
    (hfull : n = maxLcoreParams) :
    checkMapping eal g ports { lcoreParams := some a₀, nbLcoreParams := n₀ }
      = if (Port.portIds g.nbPorts).any (portIsEnabled ports) then none
        else some { lcoreParams := some a, nbLcoreParams := n } := by
  have hadd := @addMeasurement_full g ports (Port.portIds g.nbPorts) (a, n) hfull
  simp only [checkMapping, checkArray, hrounds, Option.bind_some, hadd]
  split
  next => rfl
  next => rfl

end Loops

/-- What `__check_mapping` does to the `n₀` mappings at the front of `a₀`: its
first loop leaves the filtered list in the first `n` elements of `a`; behind it
the second puts the measurement mappings as far as there is room, and the count
is that of both. -/
structure FilterSpec (eal : Eal) (g : Main) (ports : Port.State) (a₀ : ParamsArray) (n₀ : ℕ)
    (a : ParamsArray) (n : ℕ) : Prop where
  rounds : (List.range n₀).foldlM (checkRound eal g ports) (a₀, 0) = some (a, n)
  kept : (List.range n).map a = firstValid eal g ports ((List.range n₀).map a₀)
  room : n < maxLcoreParams → ∃ p,
    checkMapping eal g ports { lcoreParams := some a₀, nbLcoreParams := n₀ } = some p
    ∧ p.entries = firstValid eal g ports ((List.range n₀).map a₀)
      ++ (measurements g ports).take (maxLcoreParams - n)
    ∧ p.nbLcoreParams = (firstValid eal g ports ((List.range n₀).map a₀)).length
      + ((measurements g ports).take (maxLcoreParams - n)).length
  /-- without room the first enabled port is written behind the array -/
  full : n = maxLcoreParams →
    checkMapping eal g ports { lcoreParams := some a₀, nbLcoreParams := n₀ }
      = if (Port.portIds g.nbPorts).any (portIsEnabled ports) then none
        else some { lcoreParams := some a, nbLcoreParams := n }

theorem checkMapping_filter {n₀ : ℕ} (hlen : n₀ ≤ maxLcoreParams) (eal : Eal) (g : Main)
    (ports : Port.State) (a₀ : ParamsArray) : ∃ a n, FilterSpec eal g ports a₀ n₀ a n := by
  obtain ⟨a, n, hrounds, hkept, -⟩ := checkRounds_kept hlen eal g ports a₀
  refine ⟨a, n, hrounds, hkept, fun hlt => ?_, checkMapping_full hrounds⟩
  obtain ⟨p, hcheck, -, hentries, hcount⟩ := checkMapping_room hrounds hkept hlt
  exact ⟨p, hcheck, hentries, hcount⟩

/-- Eight lcores of 128 are enabled. -/
def eightLcores : Eal where
  rteMaxLcore := 128
  rteLcoreIsEnabled := fun lcore => lcore < 8
  lt_of_enabled := by
    intro lcore h
    have hlt : lcore < 8 := of_decide_eq_true h
    exact UInt8.lt_trans hlt (by decide)

/-- A port that does not exist, one that is not in use, the measurement lcore,
a good mapping, one like it and another good one. -/
def mixed : List LcoreParams :=
  [⟨7, .rx, 1⟩, ⟨1, .rx, 1⟩, ⟨0, .rx, 0⟩, ⟨0, .rx, 2⟩, ⟨0, .rx, 3⟩, ⟨2, .tx, 2⟩]

/-- Three ports, the second not in use: the two good mappings are kept, and the
two ports get a measurement mapping each. -/
theorem checkMapping_filter_mixed :
    ∃ a p, FilterSpec eightLcores { nbPorts := 3, statLcore := 0 }
        (Port.portParse eightLcores 3 fun port => port != 1)
        (fun i => mixed.getD i ⟨0, .rx, 0⟩) 6 a 2
      ∧ checkMapping eightLcores { nbPorts := 3, statLcore := 0 }
          (Port.portParse eightLcores 3 fun port => port != 1)
          { lcoreParams := some fun i => mixed.getD i ⟨0, .rx, 0⟩, nbLcoreParams := 6 } = some p
      ∧ p.entries = [⟨0, .rx, 2⟩, ⟨2, .tx, 2⟩, ⟨0, .tx, 0⟩, ⟨2, .tx, 0⟩] := by
  obtain ⟨a, n, hspec⟩ := checkMapping_filter (by decide : 6 ≤ maxLcoreParams) eightLcores
    { nbPorts := 3, statLcore := 0 } (Port.portParse eightLcores 3 fun port => port != 1)
    fun i => mixed.getD i ⟨0, .rx, 0⟩
  have hkept : (List.range n).map a = [⟨0, .rx, 2⟩, ⟨2, .tx, 2⟩] :=
    hspec.kept.trans (by decide +kernel)
  obtain rfl : n = 2 := by
    have hlen := congrArg List.length hkept
    rwa [List.length_map, List.length_range] at hlen
  obtain ⟨p, hcheck, hentries, -⟩ := hspec.room (by decide)
  exact ⟨a, p, hspec, hcheck, hentries.trans (by decide +kernel)⟩

end PktSender.Mapping
