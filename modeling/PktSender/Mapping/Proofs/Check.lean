/-
What `__check_mapping` leaves in the array.

# The filter

Round `i` reads element `i` and writes at most element `real_cnt ≤ i`, so the
elements from `i` on are still the parsed ones and the elements below
`real_cnt` are the mappings kept so far (`Filtered`). A mapping is kept when
it passes the checks and none of its port and job was kept before: the kept
mappings are the `firsts` of those that pass.

# The measurement lcore

The second loop appends one TX mapping of the measurement lcore for each
enabled port, until the array is full.
-/
import PktSender.Lib.FirstOf
import PktSender.Lib.LastWrite
import PktSender.Mapping.Basic

namespace PktSender.Mapping

open Port (Eal Job portIsEnabled)
open Lib (firsts keepFirst firsts_concat)

variable {eal : Eal} {g : Main} {ports : Port.State}

/-- The port and the job: what is to be served by one lcore. -/
def LcoreParams.key (m : LcoreParams) : UInt8 × Job :=
  (m.portId, m.job)

/-- The mappings that pass the checks, each port and job once. -/
def validMappings (eal : Eal) (g : Main) (ports : Port.State)
    (l : List LcoreParams) : List LcoreParams :=
  firsts LcoreParams.key (l.filter (mappingOk eal g ports))

/-- The measurement lcore sends the probes of an enabled port. -/
def measurement (g : Main) (i : UInt8) : LcoreParams :=
  { portId := i, job := .tx, lcoreId := g.statLcore }

-- ============================================================ the first loop

/-- After `i` rounds of the first loop on the array `a₀`. -/
structure Filtered (eal : Eal) (g : Main) (ports : Port.State) (a₀ : ParamsArray)
    (i : ℕ) (st : ParamsArray × ℕ) : Prop where
  kept : (List.range st.2).map st.1
    = validMappings eal g ports ((List.range i).map a₀)
  unread : ∀ k, i ≤ k → st.1 k = a₀ k
  realCnt_le : st.2 ≤ i

theorem validMappings_concat {l : List LcoreParams} {m : LcoreParams} :
    validMappings eal g ports (l ++ [m])
      = if mappingOk eal g ports m then
          keepFirst LcoreParams.key (validMappings eal g ports l) m
        else validMappings eal g ports l := by
  unfold validMappings
  rw [List.filter_append]
  cases hok : mappingOk eal g ports m with
  | true => simp [hok, firsts_concat]
  | false => simp [hok]

/-- The search finds a duplicate exactly when the key was kept before. -/
theorem isDup_eq {a : ParamsArray} {realCnt : ℕ} {m : LcoreParams} :
    isDup a realCnt m
      = ((List.range realCnt).map a).any fun b => decide (b.key = m.key) := by
  unfold isDup
  rw [List.any_map]
  congr 1
  funext j
  rw [Bool.eq_iff_iff]
  simp only [Bool.and_eq_true, beq_iff_eq, Function.comp, LcoreParams.key, Prod.mk.injEq,
    decide_eq_true_eq]
  rw [@eq_comm _ m.portId, @eq_comm _ m.job]

theorem store_eq_some {a a' : ParamsArray} {i : ℕ} {m : LcoreParams}
    (h : store a i m = some a') : a' = Function.update a i m := by
  unfold store at h
  split at h
  case isTrue => exact (Option.some.inj h).symm
  case isFalse => cases h

/-- One round. -/
theorem Filtered.round {a₀ : ParamsArray} {i : ℕ} {st st' : ParamsArray × ℕ}
    (h : Filtered eal g ports a₀ i st) (hst : checkRound eal g ports st i = some st') :
    Filtered eal g ports a₀ (i + 1) st' := by
  obtain ⟨a, realCnt⟩ := st
  obtain ⟨hkept, hunread, hle⟩ := h
  simp only at hkept hunread hle
  have hread : a i = a₀ i := hunread i le_rfl
  have hsucc : (List.range (i + 1)).map a₀ = (List.range i).map a₀ ++ [a i] := by
    rw [List.range_succ, List.map_append, hread]
    rfl
  unfold checkRound at hst
  split at hst
  case isTrue => cases hst
  case isFalse =>
    simp only at hst
    split at hst
    case isTrue hbad =>
      have hbad : ¬mappingOk eal g ports (a i) = true := by simpa using hbad
      obtain rfl := Option.some.inj hst
      refine ⟨?_, fun k hk => hunread k (by omega), by simp only; omega⟩
      rw [hsucc, validMappings_concat, if_neg hbad]
      exact hkept
    case isFalse hok =>
      have hok : mappingOk eal g ports (a i) = true := by simpa using hok
      split at hst
      case isTrue hdup =>
        obtain rfl := Option.some.inj hst
        refine ⟨?_, fun k hk => hunread k (by omega), by simp only; omega⟩
        rw [hsucc, validMappings_concat, if_pos hok, ← hkept, keepFirst, ← isDup_eq,
          if_pos hdup]
      case isFalse hdup =>
        have hnew : validMappings eal g ports ((List.range (i + 1)).map a₀)
            = (List.range realCnt).map a ++ [a i] := by
          rw [hsucc, validMappings_concat, if_pos hok, ← hkept, keepFirst, ← isDup_eq,
            if_neg hdup]
        split at hst
        case isTrue hlt =>
          obtain ⟨a', hstore, rfl⟩ := Option.map_eq_some_iff.mp hst
          obtain rfl := store_eq_some hstore
          refine ⟨?_, ?_, by simp only; omega⟩
          · rw [hnew]
            exact LastWrite.map_range_update
          · intro k hk
            simp only
            rw [Function.update_of_ne (by omega)]
            exact hunread k (by omega)
        case isFalse hge =>
          -- nothing was dropped so far: the element is in its place already
          obtain rfl := Option.some.inj hst
          have heq : realCnt = i := by omega
          subst heq
          refine ⟨?_, fun k hk => hunread k (by omega), by simp⟩
          rw [hnew]
          simp [List.range_succ]

/-- The whole loop. -/
theorem checkRounds_filtered {a₀ : ParamsArray} {n : ℕ} {st : ParamsArray × ℕ}
    (h : (List.range n).foldlM (checkRound eal g ports) (a₀, 0) = some st) :
    Filtered eal g ports a₀ n st := by
  induction n generalizing st with
  | zero =>
      obtain rfl := Option.some.inj h
      exact ⟨rfl, fun k _ => rfl, le_rfl⟩
  | succ n ih =>
      rw [List.range_succ, List.foldlM_append] at h
      obtain ⟨st₁, h₁, h₂⟩ := Option.bind_eq_some_iff.mp h
      apply (ih h₁).round
      simpa using h₂

-- =========================================================== the second loop

/-- The second loop appends a stretch of the measurement mappings. -/
theorem addMeasurement_append {is : List UInt8} {st st' : ParamsArray × ℕ}
    (h : addMeasurement g ports is st = some st') :
    ∃ added, added <+: (is.filter (portIsEnabled ports)).map (measurement g) ∧
      (List.range st'.2).map st'.1 = (List.range st.2).map st.1 ++ added := by
  induction is generalizing st with
  | nil =>
      obtain rfl := Option.some.inj h
      exact ⟨[], by simp, by simp⟩
  | cons i is ih =>
      obtain ⟨a, realCnt⟩ := st
      unfold addMeasurement at h
      split at h
      case isTrue hoff =>
        obtain ⟨added, hpre, heq⟩ := ih h
        have hoff : portIsEnabled ports i = false := by simpa using hoff
        refine ⟨added, ?_, heq⟩
        simpa [hoff] using hpre
      case isFalse hon =>
        have hon : portIsEnabled ports i = true := by simpa using hon
        obtain ⟨a', hstore, h⟩ := Option.bind_eq_some_iff.mp h
        obtain rfl := store_eq_some hstore
        split at h
        case isTrue =>
          -- the array is full
          obtain rfl := Option.some.inj h
          refine ⟨[measurement g i], ?_, LastWrite.map_range_update⟩
          simp [hon]
        case isFalse =>
          obtain ⟨added, hpre, heq⟩ := ih h
          refine ⟨measurement g i :: added, ?_, ?_⟩
          · simpa [hon] using hpre
          · rw [heq]
            simp only
            rw [LastWrite.map_range_update]
            simp [measurement]

-- ============================================================ the whole check

/-- The array after the check: the valid mappings in their order, each port
and job once, and a stretch of the measurement mappings. -/
theorem checkMapping_entries {p p' : Params} (h : checkMapping eal g ports p = some p') :
    ∃ added,
      added <+: ((Port.portIds g.nbPorts).filter (portIsEnabled ports)).map (measurement g) ∧
      p'.entries = validMappings eal g ports p.entries ++ added := by
  unfold checkMapping at h
  split at h
  case h_1 a ha =>
    obtain ⟨⟨a', realCnt⟩, hcheck, rfl⟩ := Option.map_eq_some_iff.mp h
    obtain ⟨st, hrounds, hadd⟩ := Option.bind_eq_some_iff.mp hcheck
    obtain ⟨added, hpre, heq⟩ := addMeasurement_append hadd
    refine ⟨added, hpre, ?_⟩
    simp only [Params.entries, ha]
    rw [heq, (checkRounds_filtered hrounds).kept]
  case h_2 hnone =>
    split at h
    case isTrue => cases h
    case isFalse =>
      split at h
      case isTrue => cases h
      case isFalse =>
        obtain rfl := Option.some.inj h
        refine ⟨[], List.nil_prefix, ?_⟩
        simp [Params.entries, hnone, validMappings]

theorem mem_validMappings {l : List LcoreParams} {m : LcoreParams}
    (h : m ∈ validMappings eal g ports l) : m ∈ l ∧ mappingOk eal g ports m := by
  have hmem := Lib.mem_of_mem_firsts h
  exact List.mem_filter.mp hmem

/-- What the checks ask for. -/
theorem mappingOk_iff {m : LcoreParams} :
    mappingOk eal g ports m ↔
      m.portId < g.nbPorts ∧ portIsEnabled ports m.portId ∧
        eal.rteLcoreIsEnabled m.lcoreId ∧ m.lcoreId ≠ g.statLcore := by
  unfold mappingOk
  split_ifs <;> simp_all [UInt8.not_le]

end PktSender.Mapping
