/-
The two limits the measurement lcore counts for: the size of the array of
mappings, and the ports for one job of an lcore.

# The array

`__check_mapping` writes the first measurement mapping before it looks whether
there is room for it. So it stays inside the array exactly when the mappings
before it leave an element (`checkMapping_inside_iff`).

# One job

`__init_lcore_port` succeeds when no job of an lcore gets more than
`MAX_PORT_PER_JOB` ports (`initLcorePortLoop_ok_iff`). With up to `MAX_PORT_NUM`
ports the array has room for all mappings (`firstValid_length`), and among them
`__check_mapping` has put one TX mapping of the measurement lcore for each
enabled port. So the limit for one job is a limit for the number of ports.
-/
import PktSender.Mapping.Proofs.Exclusive
import PktSender.Mapping.Proofs.Filter
import PktSender.Port.Proofs.Setup
import Mathlib.Data.Finset.Card
import Mathlib.Data.List.ProdSigma

namespace PktSender.Mapping

open Port (Eal Job portIsEnabled portUpdateLcore portParseOpt errOutOfRange)

variable {eal : Eal} {g : Main} {ports : Port.State} {l rest : List LcoreParams} {s : State}

-- ================================================================ the array

/-- The ports and jobs that a valid mapping is for. -/
def validKeys (eal : Eal) (g : Main) (ports : Port.State) (l : List LcoreParams) :
    Finset (UInt8 × Job) :=
  ((l.filter fun m => decide (Valid eal g ports m)).map LcoreParams.key).toFinset

theorem nodup_keys_firstValid (l : List LcoreParams) :
    ((firstValid eal g ports l).map LcoreParams.key).Nodup := by
  rw [← validMappings_eq]
  exact Lib.nodup_map_firsts

theorem valid_of_mem_firstValid {m : LcoreParams} (hm : m ∈ firstValid eal g ports l) :
    Valid eal g ports m := by
  rw [← validMappings_eq] at hm
  exact mappingOk_iff.mp (mem_validMappings hm).2

/-- One mapping is kept for each. -/
theorem card_validKeys (l : List LcoreParams) :
    (validKeys eal g ports l).card = (firstValid eal g ports l).length := by
  have hset : validKeys eal g ports l
      = ((firstValid eal g ports l).map LcoreParams.key).toFinset := by
    ext key
    simp only [validKeys, List.mem_toFinset, List.mem_map, List.mem_filter, decide_eq_true_eq]
    constructor
    · intro hex
      obtain ⟨m, ⟨hm, hvalid⟩, rfl⟩ := hex
      obtain ⟨m', hm', hkey⟩ := @Lib.exists_mem_firsts _ _ _ LcoreParams.key _ _
        (List.mem_filter.mpr ⟨hm, mappingOk_iff.mpr hvalid⟩)
      exact ⟨m', validMappings_eq l ▸ hm', hkey⟩
    · intro hex
      obtain ⟨m, hm, rfl⟩ := hex
      have hmem : m ∈ l := (mem_validMappings (validMappings_eq l ▸ hm)).1
      exact ⟨m, ⟨hmem, valid_of_mem_firstValid hm⟩, rfl⟩
  rw [hset, List.toFinset_card_of_nodup (nodup_keys_firstValid l), List.length_map]

/-- The check writes inside the array and counts no more elements than it has. -/
def StaysInside (eal : Eal) (g : Main) (ports : Port.State) (p : Params) : Prop :=
  ∃ p', checkMapping eal g ports p = some p' ∧ p'.lcoreParams.isSome
    ∧ p'.nbLcoreParams ≤ maxLcoreParams

theorem any_portIsEnabled (hon : ∃ port < g.nbPorts, portIsEnabled ports port) :
    (Port.portIds g.nbPorts).any (portIsEnabled ports) = true := by
  obtain ⟨port, hlt, hport⟩ := hon
  exact List.any_eq_true.mpr ⟨port, Port.mem_portIds.mpr hlt, hport⟩

theorem checkMapping_inside_iff {a₀ : ParamsArray} {n₀ : ℕ} (hlen : n₀ ≤ maxLcoreParams)
    (hon : ∃ port < g.nbPorts, portIsEnabled ports port) :
    StaysInside eal g ports { lcoreParams := some a₀, nbLcoreParams := n₀ }
      ↔ (validKeys eal g ports ((List.range n₀).map a₀)).card < maxLcoreParams := by
  obtain ⟨a, n, hrounds, hkept, hle⟩ := checkRounds_kept hlen eal g ports a₀
  have hn : (validKeys eal g ports ((List.range n₀).map a₀)).card = n := by
    rw [card_validKeys, ← hkept, List.length_map, List.length_range]
  rw [hn]
  by_cases hlt : n < maxLcoreParams
  · obtain ⟨p, hcheck, hsome, -, hcount⟩ := checkMapping_room hrounds hkept hlt
    refine iff_of_true ⟨p, hcheck, hsome, ?_⟩ hlt
    rw [hcount, ← card_validKeys, hn, List.length_take]
    omega
  · refine iff_of_false ?_ hlt
    intro hinside
    obtain ⟨p, hcheck, -⟩ := hinside
    rw [checkMapping_full hrounds (by omega), if_pos (any_portIsEnabled hon)] at hcheck
    cases hcheck

/-- Without an array the first measurement mapping goes through NULL. -/
theorem not_staysInside_null (hon : ∃ port < g.nbPorts, portIsEnabled ports port) (n₀ : ℕ) :
    ¬ StaysInside eal g ports { lcoreParams := none, nbLcoreParams := n₀ } := by
  intro hinside
  obtain ⟨p, hcheck, -⟩ := hinside
  rw [checkMapping] at hcheck
  simp only [any_portIsEnabled hon, if_true, ite_self] at hcheck
  cases hcheck

-- ================================================================ one pass

theorem assign_isSome {m : LcoreParams} (hport : m.portId < s.ports.portNbMax) :
    ∃ s', assign g s m = some s' := by
  unfold assign portUpdateLcore
  simp only
  split
  next => exact ⟨_, by rw [if_neg (UInt8.not_le.mpr hport), Option.map_some]⟩
  next => exact ⟨_, rfl⟩

/-- No job of an lcore has too many ports. -/
def WithinLimit (l : List LcoreParams) : Prop :=
  ∀ lcore job, (portsOf l lcore job).length ≤ maxPortPerJob

theorem WithinLimit.concat {m : LcoreParams} (h : WithinLimit l)
    (hm : (portsOf l m.lcoreId m.job).length < maxPortPerJob) : WithinLimit (l ++ [m]) := by
  intro lcore job
  rw [portsOf_concat]
  split
  next heq =>
    obtain ⟨rfl, rfl⟩ := heq
    rw [List.length_append]
    exact hm
  next => exact h lcore job

/-- The pass succeeds exactly when all mappings together are within the limit. -/
theorem initLcorePortLoop_ok_iff (h : Assigned g ports l s) (hl : WithinLimit l)
    (hrest : ∀ m ∈ rest, m.lcoreId < eal.rteMaxLcore ∧ m.portId < ports.portNbMax) :
    (∃ s', initLcorePortLoop eal g rest s = some (s', 0)) ↔ WithinLimit (l ++ rest) := by
  induction rest generalizing l s with
  | nil =>
      rw [List.append_nil]
      exact iff_of_true ⟨s, rfl⟩ hl
  | cons m rest ih =>
      obtain ⟨⟨hlcore, hport⟩, hrest⟩ := List.forall_mem_cons.mp hrest
      rw [initLcorePortLoop_cons, if_neg (UInt8.not_le.mpr hlcore), h.jobs]
      split
      next hfull =>
        -- this mapping is one too many
        refine iff_of_false ?_ fun hall => ?_
        · intro hex
          obtain ⟨s', hs'⟩ := hex
          exact absurd (Prod.mk.inj (Option.some.inj hs')).2 (by decide)
        · have hmany := hall m.lcoreId m.job
          rw [← List.singleton_append, ← List.append_assoc, portsOf_append, portsOf_concat,
            if_pos ⟨rfl, rfl⟩, List.length_append, List.length_append,
            List.length_singleton] at hmany
          omega
      next hroom =>
        obtain ⟨s₁, hs₁⟩ := @assign_isSome g s m (h.portNbMax ▸ hport)
        rw [hs₁, Option.bind_some,
          ih (h.assign hs₁) (hl.concat (Nat.not_le.mp hroom)) hrest, List.append_assoc,
          List.singleton_append]

-- ================================================== the mappings of the check

/-- The enabled ports. -/
def enabledPorts (g : Main) (ports : Port.State) : List UInt8 :=
  (Port.portIds g.nbPorts).filter (portIsEnabled ports)

/-- A port has two jobs, so there are at most two valid mappings for it. -/
theorem firstValid_length (l : List LcoreParams) :
    (firstValid eal g ports l).length ≤ 2 * (enabledPorts g ports).length := by
  have hsub : (firstValid eal g ports l).map LcoreParams.key
      ⊆ enabledPorts g ports ×ˢ Job.all := by
    intro key hkey
    obtain ⟨m, hm, rfl⟩ := List.mem_map.mp hkey
    obtain ⟨hport, hon, -⟩ := valid_of_mem_firstValid hm
    refine List.mem_product.mpr ⟨List.mem_filter.mpr ⟨Port.mem_portIds.mpr hport, hon⟩, ?_⟩
    show m.job ∈ Job.all
    cases m.job <;> decide
  have hle := (List.subperm_of_subset (nodup_keys_firstValid l) hsub).length_le
  rw [List.length_map, List.length_product, show Job.all.length = 2 from rfl] at hle
  omega

theorem measurements_added : Added g (measurements g ports) := by
  intro m hm
  obtain ⟨i, -, rfl⟩ := List.mem_map.mp hm
  exact ⟨rfl, rfl⟩

/-- The measurement lcore sends the probes of every enabled port. -/
theorem portsOf_measurements :
    portsOf (measurements g ports) g.statLcore .tx = enabledPorts g ports := by
  have hall : (measurements g ports).filter
      (fun m => m.lcoreId = g.statLcore ∧ m.job = .tx) = measurements g ports :=
    List.filter_eq_self.mpr fun m hm => decide_eq_true (measurements_added m hm)
  rw [portsOf, hall, measurements, List.map_map]
  exact List.map_id _

/-- With the mappings of the measurement lcore behind the valid ones. -/
theorem withinLimit_iff (l : List LcoreParams)
    (hlimit : ∀ lcore, lcore ≠ g.statLcore → ∀ job,
      (portsOf (firstValid eal g ports l) lcore job).length ≤ maxPortPerJob) :
    WithinLimit (firstValid eal g ports l ++ measurements g ports)
      ↔ (enabledPorts g ports).length ≤ maxPortPerJob := by
  have hvalid : ∀ job, portsOf (firstValid eal g ports l) g.statLcore job = [] := by
    intro job
    apply List.eq_nil_iff_forall_not_mem.mpr
    intro port hport
    exact (valid_of_mem_firstValid (mem_portsOf.mp hport)).2.2.2 rfl
  constructor
  · intro hall
    have htx := hall g.statLcore .tx
    rw [portsOf_append, hvalid, portsOf_measurements] at htx
    exact htx
  · intro hfew lcore job
    by_cases hstat : lcore = g.statLcore
    · subst hstat
      rw [portsOf_append, hvalid, List.nil_append]
      cases job with
      | tx => rwa [portsOf_measurements]
      | rx =>
          have hnil : portsOf (measurements g ports) g.statLcore .rx = [] := by
            apply List.eq_nil_iff_forall_not_mem.mpr
            intro port hport
            exact absurd (measurements_added _ (mem_portsOf.mp hport)).2 (by simp)
          rw [hnil]
          exact Nat.zero_le _
    · rw [measurements_added.portsOf_append hstat]
      exact hlimit lcore hstat job

-- ============================================================== the start-up

theorem lt_of_mem_enabledPorts {port : UInt8} (h : port ∈ enabledPorts g ports) :
    port < g.nbPorts :=
  Port.mem_portIds.mp (List.mem_filter.mp h).1

theorem length_measurements :
    (measurements g ports).length = (enabledPorts g ports).length :=
  List.length_map _

/-- Every mapping that is written is one of an lcore and a port there are. -/
theorem mapping_bounds (hstat : eal.rteLcoreIsEnabled g.statLcore) :
    ∀ m ∈ firstValid eal g ports l ++ measurements g ports,
      m.lcoreId < eal.rteMaxLcore ∧ m.portId < g.nbPorts := by
  intro m hm
  rcases List.mem_append.mp hm with hm | hm
  · obtain ⟨hport, -, hlcore, -⟩ := valid_of_mem_firstValid hm
    exact ⟨eal.lt_of_enabled _ hlcore, hport⟩
  · obtain ⟨i, hi, rfl⟩ := List.mem_map.mp hm
    exact ⟨eal.lt_of_enabled _ hstat, lt_of_mem_enabledPorts hi⟩

/-- When the start-up gets past the assignment. With at most `MAX_PORT_NUM`
ports, any list of mappings and no lcore but the measurement lcore beyond the
limit, `__init_lcore_port` returns 0 exactly when no more ports are enabled than
one job may have: the measurement lcore has a job for each of them. -/
theorem initLcorePort_starts_iff {portmask : UInt64} {a₀ : ParamsArray} {n₀ : ℕ}
    (hports : ports = portParseOpt eal g.nbPorts portmask)
    (hstat : eal.rteLcoreIsEnabled g.statLcore) (hlen : n₀ ≤ maxLcoreParams)
    (hnum : (enabledPorts g ports).length ≤ Port.maxPortNum)
    (hlimit : ∀ lcore, lcore ≠ g.statLcore → ∀ job,
      (portsOf (firstValid eal g ports ((List.range n₀).map a₀)) lcore job).length
        ≤ maxPortPerJob) :
    (∃ p s, checkMapping eal g ports { lcoreParams := some a₀, nbLcoreParams := n₀ } = some p
      ∧ initLcorePort eal g p (.start ports) = some (s, 0))
    ↔ (enabledPorts g ports).length ≤ maxPortPerJob := by
  obtain ⟨a, n, hrounds, hkept, -⟩ := checkRounds_kept hlen eal g ports a₀
  have hvalid := @firstValid_length eal g ports ((List.range n₀).map a₀)
  have hmax : Port.maxPortNum = 16 := rfl
  have hn : n = (firstValid eal g ports ((List.range n₀).map a₀)).length := by
    rw [← hkept, List.length_map, List.length_range]
  -- two jobs for each of 16 ports leave room for the measurement mappings
  obtain ⟨p, hcheck, -, hentries, -⟩ := checkMapping_room hrounds hkept (by
    show n < 128
    omega)
  rw [List.take_of_length_le (by
    rw [length_measurements]
    show _ ≤ 128 - n
    omega)] at hentries
  have hnb : ports.portNbMax = g.nbPorts := by
    rw [hports]
    rfl
  have hbounds : ∀ m ∈ p.entries, m.lcoreId < eal.rteMaxLcore ∧ m.portId < ports.portNbMax := by
    rw [hentries, hnb]
    exact mapping_bounds hstat
  have hinit := initLcorePortLoop_ok_iff (assigned_start (g := g)) (fun _ _ => Nat.zero_le _)
    hbounds
  rw [List.nil_append, hentries, withinLimit_iff _ hlimit, ← hentries] at hinit
  rw [← hinit]
  constructor
  · intro hex
    obtain ⟨p', s, hcheck', hs⟩ := hex
    rw [hcheck] at hcheck'
    cases hcheck'
    exact ⟨s, hs⟩
  · intro hex
    obtain ⟨s, hs⟩ := hex
    exact ⟨p, s, hcheck, hs⟩

theorem length_portsOf_le (l : List LcoreParams) (lcore : UInt8) (job : Job) :
    (portsOf l lcore job).length ≤ l.length := by
  rw [portsOf, List.length_map]
  exact List.length_filter_le _ _

/-- One lcore receives from the first port, another one sends to it. -/
def onePort : ParamsArray := fun i => [⟨0, .rx, 1⟩, ⟨0, .tx, 2⟩].getD i ⟨0, .rx, 0⟩

/-- With four ports this starts. -/
theorem initLcorePort_starts_iff_four :
    ∃ p s, checkMapping fourLcores { nbPorts := 4, statLcore := 0 } (portParseOpt fourLcores 4 15)
        { lcoreParams := some onePort, nbLcoreParams := 2 } = some p
      ∧ initLcorePort fourLcores { nbPorts := 4, statLcore := 0 } p
        (.start (portParseOpt fourLcores 4 15)) = some (s, 0) := by
  refine (@initLcorePort_starts_iff fourLcores { nbPorts := 4, statLcore := 0 }
    (portParseOpt fourLcores 4 15) 15 onePort 2 rfl (by decide) (by decide) (by decide) ?_).mpr
    (by decide)
  intro lcore _ job
  exact (length_portsOf_le _ lcore job).trans (by decide)

/-- With five it does not, though no other lcore has more than one port for a
job. -/
theorem five_ports_not_started :
    ∃ p s, checkMapping fourLcores { nbPorts := 5, statLcore := 0 } (portParseOpt fourLcores 5 31)
        { lcoreParams := some onePort, nbLcoreParams := 2 } = some p
      ∧ initLcorePort fourLcores { nbPorts := 5, statLcore := 0 } p
        (.start (portParseOpt fourLcores 5 31)) = some (s, errOutOfRange)
      ∧ (enabledPorts { nbPorts := 5, statLcore := 0 } (portParseOpt fourLcores 5 31)).length
        ≤ Port.maxPortNum
      ∧ ∀ lcore, lcore ≠ 0 → ∀ job,
        (portsOf (firstValid fourLcores { nbPorts := 5, statLcore := 0 }
          (portParseOpt fourLcores 5 31) ((List.range 2).map onePort)) lcore job).length
            ≤ maxPortPerJob := by
  have hrun : ((checkMapping fourLcores { nbPorts := 5, statLcore := 0 }
      (portParseOpt fourLcores 5 31) { lcoreParams := some onePort, nbLcoreParams := 2 }).bind
        fun p => (initLcorePort fourLcores { nbPorts := 5, statLcore := 0 } p
          (.start (portParseOpt fourLcores 5 31))).map (·.2)) = some errOutOfRange := by
    decide
  obtain ⟨p, hcheck, hrun⟩ := Option.bind_eq_some_iff.mp hrun
  obtain ⟨⟨s, ret⟩, hinit, hret⟩ := Option.map_eq_some_iff.mp hrun
  obtain rfl : ret = errOutOfRange := hret
  refine ⟨p, s, hcheck, hinit, by decide, fun lcore _ job => ?_⟩
  exact (length_portsOf_le _ lcore job).trans (by decide)

end PktSender.Mapping
