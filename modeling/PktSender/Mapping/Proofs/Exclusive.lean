/-
The two representations of the assignment agree.

# Two passes over one list

`__init_lcore_port` writes each mapping into its lcore and, when the lcore is
not the measurement lcore, into its port. After any stretch of the list the
lists of the lcores hold the stretch's mappings in order, and a port holds
the lcore that was written to its job last (`Assigned`). Among the mappings
of the other lcores a port and a job occur once (`validMappings`), so the
last write is the only one and the two agree (`Exclusive`).
-/
import PktSender.Mapping.Proofs.Check

namespace PktSender.Mapping

open Port (Eal Job PortInfo portIsEnabled portUpdateLcore portParse)

variable {eal : Eal} {g : Main} {ports : Port.State}

-- ================================================================ one pass

/-- What is written into the ports: port, job and lcore. -/
def portWrites (g : Main) (l : List LcoreParams) : List (UInt8 × Job × UInt8) :=
  (l.filter fun m => m.lcoreId ≠ g.statLcore).map fun m => (m.portId, m.job, m.lcoreId)

/-- The ports a list of mappings gives to a job of an lcore. -/
def portsOf (l : List LcoreParams) (lcore : UInt8) (job : Job) : List UInt8 :=
  (l.filter fun m => m.lcoreId = lcore ∧ m.job = job).map (·.portId)

/-- After the mappings `l`, from the ports `ports`. -/
structure Assigned (g : Main) (ports : Port.State) (l : List LcoreParams) (s : State) :
    Prop where
  jobs : ∀ lcore job, (s.lcoreList lcore).jobs job = portsOf l lcore job
  portNbMax : s.ports.portNbMax = ports.portNbMax
  dev : s.ports.dev = ports.dev
  port : ∀ portid, s.ports.portList portid
    = { ports.portList portid with
        lcoreMap := fun job =>
          LastWrite.last ((ports.portList portid).lcoreMap job) (portWrites g l) portid job }

theorem assigned_start : Assigned g ports [] (State.start ports) where
  jobs := fun _ _ => rfl
  portNbMax := rfl
  dev := rfl
  port := fun _ => rfl

theorem portsOf_concat {l : List LcoreParams} {m : LcoreParams} {lcore : UInt8} {job : Job} :
    portsOf (l ++ [m]) lcore job
      = if m.lcoreId = lcore ∧ m.job = job then portsOf l lcore job ++ [m.portId]
        else portsOf l lcore job := by
  unfold portsOf
  rw [List.filter_append, List.map_append]
  split
  case isTrue h => simp [h]
  case isFalse h => simp [h]

theorem portWrites_concat {l : List LcoreParams} {m : LcoreParams} :
    portWrites g (l ++ [m])
      = if m.lcoreId ≠ g.statLcore then
          portWrites g l ++ [(m.portId, m.job, m.lcoreId)]
        else portWrites g l := by
  unfold portWrites
  rw [List.filter_append, List.map_append]
  split
  case isTrue h => simp [h]
  case isFalse h => simp [h]

/-- Writing a mapping into its lcore. -/
theorem jobs_update {l : List LcoreParams} {m : LcoreParams} {s : State}
    (h : ∀ lcore job, (s.lcoreList lcore).jobs job = portsOf l lcore job)
    (lcore : UInt8) (job : Job) :
    ((Function.update s.lcoreList m.lcoreId
        ((s.lcoreList m.lcoreId).setJob m.job
          ((s.lcoreList m.lcoreId).jobs m.job ++ [m.portId]))) lcore).jobs job
      = portsOf (l ++ [m]) lcore job := by
  rw [portsOf_concat]
  by_cases hlcore : lcore = m.lcoreId
  · subst hlcore
    rw [Function.update_self, LcoreConf.setJob]
    by_cases hjob : job = m.job
    · subst hjob
      simp [h]
    · simp [h, Function.update_of_ne hjob, Ne.symm hjob]
  · rw [Function.update_of_ne hlcore, h]
    simp [Ne.symm hlcore]

/-- Writing a mapping into its port. -/
theorem portUpdateLcore_assigned {l : List LcoreParams} {m : LcoreParams}
    {s : State} {ports' : Port.State} (h : Assigned g ports l s)
    (hstat : m.lcoreId ≠ g.statLcore)
    (hup : portUpdateLcore s.ports m.portId m.lcoreId m.job = some ports') :
    ports'.portNbMax = ports.portNbMax ∧ ports'.dev = ports.dev ∧
      ∀ portid, ports'.portList portid
        = { ports.portList portid with
            lcoreMap := fun job =>
              LastWrite.last ((ports.portList portid).lcoreMap job)
                (portWrites g (l ++ [m])) portid job } := by
  unfold portUpdateLcore at hup
  split at hup
  case isTrue => cases hup
  case isFalse =>
    obtain rfl := Option.some.inj hup
    refine ⟨h.portNbMax, h.dev, ?_⟩
    intro portid
    rw [portWrites_concat, if_pos hstat]
    by_cases hport : portid = m.portId
    · subst hport
      simp only [Port.State.setPort, Function.update_self, h.port, PortInfo.mk.injEq, true_and,
        and_true]
      funext job
      by_cases hjob : job = m.job
      · subst hjob
        rw [Function.update_self, LastWrite.last_concat_self]
      · rw [Function.update_of_ne hjob, LastWrite.last_concat_of_ne]
        intro hboth
        exact hjob hboth.2.symm
    · simp only [Port.State.setPort, Function.update_of_ne hport, h.port, PortInfo.mk.injEq,
        true_and, and_true]
      funext job
      rw [LastWrite.last_concat_of_ne]
      intro hboth
      exact hport hboth.1.symm

/-- What one round writes. -/
def assign (g : Main) (s : State) (m : LcoreParams) : Option State :=
  let conf := s.lcoreList m.lcoreId
  let lcoreList := Function.update s.lcoreList m.lcoreId
    (conf.setJob m.job (conf.jobs m.job ++ [m.portId]))
  if m.lcoreId ≠ g.statLcore then
    (portUpdateLcore s.ports m.portId m.lcoreId m.job).map fun ports =>
      { lcoreList := lcoreList, ports := ports }
  else some { s with lcoreList := lcoreList }

theorem initLcorePortLoop_cons {m : LcoreParams} {rest : List LcoreParams} {s : State} :
    initLcorePortLoop eal g (m :: rest) s
      = if m.lcoreId ≥ eal.rteMaxLcore then none
        else if ((s.lcoreList m.lcoreId).jobs m.job).length ≥ maxPortPerJob then
          some (s, Port.errOutOfRange)
        else (assign g s m).bind (initLcorePortLoop eal g rest) := by
  rw [initLcorePortLoop, assign]
  split
  next => rfl
  next =>
    simp only
    split
    next => rfl
    next =>
      split
      next => rw [Option.bind_map]; rfl
      next => rfl

/-- One round. -/
theorem Assigned.assign {l : List LcoreParams} {m : LcoreParams} {s s' : State}
    (h : Assigned g ports l s) (hs : assign g s m = some s') :
    Assigned g ports (l ++ [m]) s' := by
  unfold Mapping.assign at hs
  simp only at hs
  split at hs
  case isTrue hstat =>
    obtain ⟨ports', hup, rfl⟩ := Option.map_eq_some_iff.mp hs
    obtain ⟨hnb, hdev, hport⟩ := portUpdateLcore_assigned h hstat hup
    exact ⟨jobs_update h.jobs, hnb, hdev, hport⟩
  case isFalse hstat =>
    obtain rfl := Option.some.inj hs
    have hwrites : portWrites g (l ++ [m]) = portWrites g l := by
      rw [portWrites_concat, if_neg hstat]
    refine ⟨jobs_update h.jobs, h.portNbMax, h.dev, ?_⟩
    rw [hwrites]
    exact h.port

/-- The pass ends well or reports a job with too many ports. -/
theorem initLcorePortLoop_ret {l : List LcoreParams} {s s' : State} {ret : Int}
    (h : initLcorePortLoop eal g l s = some (s', ret)) :
    ret = 0 ∨ ret = Port.errOutOfRange := by
  induction l generalizing s with
  | nil =>
      left
      exact (Prod.mk.inj (Option.some.inj h)).2.symm
  | cons m l ih =>
      rw [initLcorePortLoop_cons] at h
      split at h
      case isTrue => cases h
      case isFalse =>
        split at h
        case isTrue =>
          right
          exact (Prod.mk.inj (Option.some.inj h)).2.symm
        case isFalse =>
          obtain ⟨_, -, h⟩ := Option.bind_eq_some_iff.mp h
          exact ih h

/-- The whole pass, when nothing stops it. -/
theorem initLcorePortLoop_assigned {l rest : List LcoreParams} {s s' : State}
    (h : Assigned g ports l s) (hinit : initLcorePortLoop eal g rest s = some (s', 0)) :
    Assigned g ports (l ++ rest) s' := by
  induction rest generalizing l s with
  | nil =>
      simp only [initLcorePortLoop, Option.some.injEq, Prod.mk.injEq, and_true] at hinit
      subst hinit
      simpa using h
  | cons m rest ih =>
      rw [initLcorePortLoop_cons] at hinit
      rw [← List.singleton_append, ← List.append_assoc]
      split at hinit
      case isTrue => cases hinit
      case isFalse =>
        split at hinit
        case isTrue =>
          simp only [Option.some.injEq, Prod.mk.injEq] at hinit
          exact absurd hinit.2 (by decide)
        case isFalse =>
          obtain ⟨s₁, hs₁, hinit⟩ := Option.bind_eq_some_iff.mp hinit
          exact ih (h.assign hs₁) hinit

-- ============================================================ the agreement

/-- Both representations of the assignment, outside the measurement lcore. -/
structure Exclusive (eal : Eal) (g : Main) (s : State) : Prop where
  /-- the port knows its lcore and the lcore its port -/
  agree : ∀ port job lcore, portIsEnabled s.ports port → lcore < eal.rteMaxLcore →
    lcore ≠ g.statLcore →
    ((s.ports.portList port).lcoreMap job = lcore ↔ port ∈ (s.lcoreList lcore).jobs job)
  once : ∀ port job lcore, lcore ≠ g.statLcore → port ∈ (s.lcoreList lcore).jobs job →
    ((s.lcoreList lcore).jobs job).count port = 1
  unique : ∀ port job lcore lcore', lcore ≠ g.statLcore → lcore' ≠ g.statLcore →
    port ∈ (s.lcoreList lcore).jobs job → port ∈ (s.lcoreList lcore').jobs job →
    lcore = lcore'
  enabled : ∀ port job lcore, lcore ≠ g.statLcore → port ∈ (s.lcoreList lcore).jobs job →
    eal.rteLcoreIsEnabled lcore
  unserved : ∀ port job, portIsEnabled s.ports port →
    (∀ lcore, lcore < eal.rteMaxLcore → lcore ≠ g.statLcore →
      port ∉ (s.lcoreList lcore).jobs job) →
    (s.ports.portList port).lcoreMap job = eal.rteMaxLcore
  statRx : (s.lcoreList g.statLcore).jobs .rx = []

/-- After the whole start-up of the assignment: the mappings in the ports and
lcores are the valid ones, and the measurement lcore has TX jobs only. -/
structure Applied (eal : Eal) (g : Main) (ports : Port.State) (valid : List LcoreParams)
    (s : State) : Prop where
  mem_jobs : ∀ port job lcore, lcore ≠ g.statLcore →
    (port ∈ (s.lcoreList lcore).jobs job ↔ ⟨port, job, lcore⟩ ∈ valid)
  nodup_jobs : ∀ job lcore, lcore ≠ g.statLcore → ((s.lcoreList lcore).jobs job).Nodup
  statRx : (s.lcoreList g.statLcore).jobs .rx = []
  portNbMax : s.ports.portNbMax = ports.portNbMax
  dev : s.ports.dev = ports.dev
  port : ∀ portid, ∃ lcoreMap, s.ports.portList portid
    = { ports.portList portid with lcoreMap := lcoreMap }
  lcoreMap_of_mem : ∀ m ∈ valid, (s.ports.portList m.portId).lcoreMap m.job = m.lcoreId
  lcoreMap_of_not_mem : ∀ port job, (∀ lcore, ⟨port, job, lcore⟩ ∉ valid) →
    (s.ports.portList port).lcoreMap job = (ports.portList port).lcoreMap job

theorem portsOf_append {l l' : List LcoreParams} {lcore : UInt8} {job : Job} :
    portsOf (l ++ l') lcore job = portsOf l lcore job ++ portsOf l' lcore job := by
  simp [portsOf]

theorem mem_portsOf {l : List LcoreParams} {lcore port : UInt8} {job : Job} :
    port ∈ portsOf l lcore job ↔ ⟨port, job, lcore⟩ ∈ l := by
  unfold portsOf
  constructor
  · intro h
    obtain ⟨m, hm, rfl⟩ := List.mem_map.mp h
    obtain ⟨hmem, hkey⟩ := List.mem_filter.mp hm
    obtain ⟨rfl, rfl⟩ := of_decide_eq_true hkey
    exact hmem
  · intro h
    apply List.mem_map.mpr
    exact ⟨⟨port, job, lcore⟩, List.mem_filter.mpr ⟨h, by simp⟩, rfl⟩

/-- A port is given to a job of an lcore at most once. -/
theorem nodup_portsOf {l : List LcoreParams} (h : (l.map LcoreParams.key).Nodup)
    {lcore : UInt8} {job : Job} : (portsOf l lcore job).Nodup := by
  unfold portsOf
  have hsub : (l.filter fun m => m.lcoreId = lcore ∧ m.job = job).Sublist l :=
    List.filter_sublist
  have hkeys := h.sublist (hsub.map LcoreParams.key)
  apply List.Nodup.map_on ?_ hkeys.of_map
  intro m hm m' hm' hport
  obtain ⟨-, hm⟩ := List.mem_filter.mp hm
  obtain ⟨-, hm'⟩ := List.mem_filter.mp hm'
  cases m
  cases m'
  simp_all

/-- The mappings that `__check_mapping` adds: TX jobs of the measurement lcore. -/
def Added (g : Main) (added : List LcoreParams) : Prop :=
  ∀ m ∈ added, m.lcoreId = g.statLcore ∧ m.job = .tx

/-- They give no port to another lcore. -/
theorem Added.portsOf_append {valid added : List LcoreParams} (h : Added g added)
    {lcore : UInt8} (hstat : lcore ≠ g.statLcore) (job : Job) :
    portsOf (valid ++ added) lcore job = portsOf valid lcore job := by
  have hnil : portsOf added lcore job = [] := by
    apply List.eq_nil_iff_forall_not_mem.mpr
    intro port hport
    exact hstat (h _ (mem_portsOf.mp hport)).1
  rw [Mapping.portsOf_append, hnil, List.append_nil]

/-- And write nothing into the ports. -/
theorem Added.mem_portWrites {valid added : List LcoreParams} (h : Added g added)
    (hok : ∀ m ∈ valid, m.lcoreId ≠ g.statLcore) {x : UInt8 × Job × UInt8} :
    x ∈ portWrites g (valid ++ added) ↔ (⟨x.1, x.2.1, x.2.2⟩ : LcoreParams) ∈ valid := by
  simp only [portWrites, List.mem_map, List.mem_filter, List.mem_append]
  constructor
  · intro hx
    obtain ⟨m, ⟨hm | hm, hstat⟩, rfl⟩ := hx
    · exact hm
    · exact absurd (h m hm).1 (of_decide_eq_true hstat)
  · intro hm
    exact ⟨_, ⟨Or.inl hm, by simpa using hok _ hm⟩, rfl⟩

/-- What `__check_mapping` and `__init_lcore_port` leave, from any ports. -/
theorem initLcorePort_applied {p p' : Params} {s : State}
    (hcheck : checkMapping eal g ports p = some p')
    (hinit : initLcorePort eal g p' (State.start ports) = some (s, 0)) :
    Applied eal g ports (validMappings eal g ports p.entries) s := by
  obtain ⟨added, hpre, hentries⟩ := checkMapping_entries hcheck
  have h := initLcorePortLoop_assigned assigned_start hinit
  rw [List.nil_append, hentries] at h
  clear hcheck hinit hentries
  have hadded : Added g added := by
    intro m hm
    obtain ⟨i, -, rfl⟩ := List.mem_map.mp (hpre.subset hm)
    exact ⟨rfl, rfl⟩
  have hkeys : ((validMappings eal g ports p.entries).map LcoreParams.key).Nodup :=
    Lib.nodup_map_firsts
  have hok : ∀ m ∈ validMappings eal g ports p.entries, m.lcoreId ≠ g.statLcore := by
    intro m hm
    exact (mappingOk_iff.mp (mem_validMappings hm).2).2.2.2
  generalize validMappings eal g ports p.entries = valid at h hkeys hok ⊢
  constructor
  case mem_jobs =>
    intro port job lcore hstat
    rw [h.jobs, hadded.portsOf_append hstat]
    exact mem_portsOf
  case nodup_jobs =>
    intro job lcore hstat
    rw [h.jobs, hadded.portsOf_append hstat]
    exact nodup_portsOf hkeys
  case statRx =>
    rw [h.jobs]
    apply List.eq_nil_iff_forall_not_mem.mpr
    intro port hport
    rcases List.mem_append.mp (mem_portsOf.mp hport) with hm | hm
    · exact hok _ hm rfl
    · exact absurd (hadded _ hm).2 (by simp)
  case portNbMax => exact h.portNbMax
  case dev => exact h.dev
  case port =>
    intro portid
    exact ⟨_, h.port portid⟩
  case lcoreMap_of_mem =>
    intro m hm
    rw [h.port]
    apply LastWrite.last_of_forall_eq
    · exact (hadded.mem_portWrites hok (x := (m.portId, m.job, m.lcoreId))).mpr hm
    · intro x hx hport hjob
      have hmem := (hadded.mem_portWrites hok).mp hx
      have heq := List.inj_on_of_nodup_map hkeys hmem hm (by simp [LcoreParams.key, hport, hjob])
      rw [← heq]
  case lcoreMap_of_not_mem =>
    intro port job hnone
    rw [h.port]
    apply LastWrite.last_of_forall_ne
    intro x hx hkey
    obtain ⟨rfl, rfl⟩ := hkey
    exact hnone _ ((hadded.mem_portWrites hok).mp hx)

theorem portIsEnabled_portParse {portNbMax port : UInt8} {inUse : UInt8 → Bool} :
    portIsEnabled (portParse eal portNbMax inUse) port
      = (decide (port < portNbMax) && inUse port) := by
  unfold portIsEnabled portParse
  by_cases hlt : port < portNbMax
  · cases hin : inUse port <;> simp [hlt, hin, UInt8.not_le.mpr hlt, Port.PortInfo.zero]
  · simp [hlt, UInt8.not_lt.mp hlt]

/-- A job of a port that no valid mapping gives away has no lcore. -/
theorem Applied.unserved {portNbMax port : UInt8} {inUse : UInt8 → Bool} {job : Job}
    {valid : List LcoreParams} {s : State}
    (h : Applied eal g (portParse eal portNbMax inUse) valid s)
    (hon : portIsEnabled s.ports port) (hnone : ∀ lcore, ⟨port, job, lcore⟩ ∉ valid) :
    (s.ports.portList port).lcoreMap job = eal.rteMaxLcore := by
  rw [h.lcoreMap_of_not_mem port job hnone]
  obtain ⟨_, hport⟩ := h.port port
  have hon : portIsEnabled (portParse eal portNbMax inUse) port = true := by
    unfold portIsEnabled at hon ⊢
    rw [hport, h.portNbMax] at hon
    exact hon
  rw [portIsEnabled_portParse] at hon
  simp only [portParse]
  rw [if_pos hon]

/-- So the lcore of a job, when it has one, is that of its valid mapping. -/
theorem Applied.lcoreMap_iff {portNbMax port lcore : UInt8} {inUse : UInt8 → Bool} {job : Job}
    {valid : List LcoreParams} {s : State}
    (h : Applied eal g (portParse eal portNbMax inUse) valid s)
    (hon : portIsEnabled s.ports port) (hlt : lcore < eal.rteMaxLcore) :
    (s.ports.portList port).lcoreMap job = lcore ↔ ⟨port, job, lcore⟩ ∈ valid := by
  constructor
  · intro hmap
    by_contra hmem
    have hnone : ∃ lcore', ⟨port, job, lcore'⟩ ∈ valid := by
      by_contra hnone
      rw [h.unserved hon (not_exists.mp hnone)] at hmap
      exact absurd hlt (by simp [hmap])
    obtain ⟨lcore', hmem'⟩ := hnone
    have hmap' := h.lcoreMap_of_mem _ hmem'
    simp only [hmap] at hmap'
    rw [hmap'] at hmem
    exact hmem hmem'
  · intro hmem
    exact h.lcoreMap_of_mem _ hmem

/-- Whatever was parsed: when the check stays inside the array and the
assignment succeeds, the ports and the lcores agree, and each job of a port
has one lcore. -/
theorem initLcorePort_exclusive {portNbMax : UInt8} {inUse : UInt8 → Bool}
    {p p' : Params} {s : State}
    (hcheck : checkMapping eal g (portParse eal portNbMax inUse) p = some p')
    (hinit : initLcorePort eal g p' (State.start (portParse eal portNbMax inUse))
      = some (s, 0)) :
    Exclusive eal g s := by
  have h := initLcorePort_applied hcheck hinit
  have hvalid : ∀ m ∈ validMappings eal g (portParse eal portNbMax inUse) p.entries,
      eal.rteLcoreIsEnabled m.lcoreId ∧ m.lcoreId ≠ g.statLcore := by
    intro m hm
    exact (mappingOk_iff.mp (mem_validMappings hm).2).2.2
  constructor
  case agree =>
    intro port job lcore hon hlt hstat
    rw [h.mem_jobs port job lcore hstat]
    exact h.lcoreMap_iff hon hlt
  case once =>
    intro port job lcore hstat hmem
    exact List.count_eq_one_of_mem (h.nodup_jobs job lcore hstat) hmem
  case unique =>
    intro port job lcore lcore' hstat hstat' hmem hmem'
    have heq := Lib.eq_of_mem_firsts ((h.mem_jobs port job lcore hstat).mp hmem)
      ((h.mem_jobs port job lcore' hstat').mp hmem') rfl
    exact congrArg LcoreParams.lcoreId heq
  case enabled =>
    intro port job lcore hstat hmem
    exact (hvalid _ ((h.mem_jobs port job lcore hstat).mp hmem)).1
  case unserved =>
    intro port job hon hnone
    apply h.unserved hon
    intro lcore hmem
    obtain ⟨hlcore, hstat⟩ := hvalid _ hmem
    exact hnone lcore (eal.lt_of_enabled lcore hlcore) hstat
      ((h.mem_jobs port job lcore hstat).mpr hmem)
  case statRx => exact h.statRx

/-- Four lcores of 128 are enabled. -/
def fourLcores : Eal where
  rteMaxLcore := 128
  rteLcoreIsEnabled := fun lcore => lcore < 4
  lt_of_enabled := by
    intro lcore h
    have hlt : lcore < 4 := of_decide_eq_true h
    exact UInt8.lt_trans hlt (by decide)

/-- Two ports, with a mapping to the measurement lcore, one given twice and one
given to a second lcore among the good ones. -/
theorem initLcorePort_exclusive_twoPorts :
    ∃ p' s, checkMapping fourLcores { nbPorts := 2, statLcore := 0 }
        (portParse fourLcores 2 fun _ => true)
        (.parsed [⟨0, .rx, 0⟩, ⟨0, .rx, 1⟩, ⟨0, .rx, 1⟩, ⟨0, .rx, 2⟩, ⟨1, .tx, 2⟩])
          = some p' ∧
      initLcorePort fourLcores { nbPorts := 2, statLcore := 0 } p'
        (State.start (portParse fourLcores 2 fun _ => true)) = some (s, 0) ∧
      Exclusive fourLcores { nbPorts := 2, statLcore := 0 } s := by
  have h : ((checkMapping fourLcores { nbPorts := 2, statLcore := 0 }
      (portParse fourLcores 2 fun _ => true)
      (.parsed [⟨0, .rx, 0⟩, ⟨0, .rx, 1⟩, ⟨0, .rx, 1⟩, ⟨0, .rx, 2⟩, ⟨1, .tx, 2⟩])).bind
        fun p' => (initLcorePort fourLcores { nbPorts := 2, statLcore := 0 } p'
          (State.start (portParse fourLcores 2 fun _ => true))).map (·.2)) = some 0 := by
    decide
  obtain ⟨p', hcheck, h⟩ := Option.bind_eq_some_iff.mp h
  obtain ⟨⟨s, ret⟩, hinit, rfl⟩ := Option.map_eq_some_iff.mp h
  exact ⟨p', s, hcheck, hinit, initLcorePort_exclusive hcheck hinit⟩

end PktSender.Mapping
