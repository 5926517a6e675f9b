/-
Which queues the running program uses, and which were set up.

# Three parties

`port_init` sets up queues by the lcores of the ports, the RX/TX lcores use
them by their own lists, and the probe sender uses the second TX queue of
every enabled port. After start-up the first two agree (`Ready`): an RX/TX
lcore only polls and transmits on queues that were set up. The third does
not ask for an lcore, so it is in step with the others exactly when every
enabled port has a TX mapping (`bursts_setUp_iff`).
-/
import PktSender.Launch.Basic
import PktSender.Mapping.Proofs.Exclusive
import PktSender.Port.Proofs.Setup
import PktSender.Probe.Proofs.Numbering
import PktSender.Transmitter.Proofs.Rate

namespace PktSender.Launch

open Port (Job portIsEnabled portParseOpt portParse portInit portStart rxqRx txqTx txqLatency)
open Mapping (LcoreParams validMappings mappingOk_iff)
open Transmitter (Call txCtlTxBurst_queueid)
open Probe (ProbeState)

variable {c : Cfg} {s s' : Sys} {a : Act}

-- ================================================================ the inputs

/-- Some mapping gives this job of this port to an enabled lcore other than
the measurement lcore. -/
def Cfg.Mapped (c : Cfg) (port : UInt8) (job : Job) : Prop :=
  ∃ m ∈ c.params.entries, m.portId = port ∧ m.job = job ∧
    c.eal.rteLcoreIsEnabled m.lcoreId ∧ m.lcoreId ≠ c.statLcore

theorem portIsEnabled_ports {port : UInt8} (h : portIsEnabled c.ports port) :
    port < c.rteEthDevCount ∧ (c.ports.portList port).lcoreMap = fun _ => c.eal.rteMaxLcore := by
  unfold Cfg.ports portParseOpt at h ⊢
  rw [Mapping.portIsEnabled_portParse, Bool.and_eq_true] at h
  refine ⟨of_decide_eq_true h.1, ?_⟩
  simp only [portParse]
  rw [if_pos (by simpa using h)]

/-- For an enabled port a job was mapped exactly when a mapping of it is kept. -/
theorem mapped_iff {port : UInt8} {job : Job} (hon : portIsEnabled c.ports port) :
    c.Mapped port job ↔
      ∃ lcore, ⟨port, job, lcore⟩ ∈ validMappings c.eal c.main c.ports c.params.entries := by
  constructor
  · intro h
    obtain ⟨m, hm, rfl, rfl, hlcore, hstat⟩ := h
    have hok : Mapping.mappingOk c.eal c.main c.ports m := by
      rw [mappingOk_iff]
      exact ⟨(portIsEnabled_ports hon).1, hon, hlcore, hstat⟩
    have hkept : ∃ m' ∈ validMappings c.eal c.main c.ports c.params.entries, m'.key = m.key :=
      Lib.exists_mem_firsts (List.mem_filter.mpr ⟨hm, hok⟩)
    obtain ⟨m', hm', hkey⟩ := hkept
    obtain ⟨hport, hjob⟩ := Prod.mk.inj hkey
    refine ⟨m'.lcoreId, ?_⟩
    rw [← hport, ← hjob]
    exact hm'
  · intro h
    obtain ⟨lcore, hm⟩ := h
    obtain ⟨hmem, hok⟩ := Mapping.mem_validMappings hm
    obtain ⟨-, -, hlcore, hstat⟩ := mappingOk_iff.mp hok
    exact ⟨_, hmem, rfl, rfl, hlcore, hstat⟩

-- ============================================================= the invariant

/-- What start-up leaves and every step keeps. -/
structure Ready (c : Cfg) (s : Sys) : Prop where
  portIsEnabled : ∀ p, portIsEnabled s.ports p = portIsEnabled c.ports p
  queueid : ∀ p, (s.ports.portList p).txCtl.queueid = txqTx
  rxQueues : ∀ p, Port.portIsEnabled c.ports p → c.Mapped p .rx →
    (p, rxqRx) ∈ s.ports.dev.rxQueues
  txQueues : ∀ p q, (p, q) ∈ s.ports.dev.txQueues ↔
    Port.portIsEnabled c.ports p ∧ c.Mapped p .tx ∧ (q = txqTx ∨ q = txqLatency)
  jobs : ∀ lcore job p, lcore ≠ c.statLcore → p ∈ (s.lcoreList lcore).jobs job →
    Port.portIsEnabled c.ports p ∧ c.Mapped p job
  pc : ∀ lcore, s.pc lcore ≠ .done → lcore ≠ c.statLcore
  probeCtl : ∀ i, Port.portIsEnabled c.ports i →
    (s.probe.probeList i).portid = i ∧ (s.probe.probeList i).queueid = txqLatency
  probePc : ∀ i, s.probe.pc = .send i → Port.portIsEnabled c.ports i

/-- What `startUp` does, call by call. -/
theorem startUp_eq_some (h : startUp c = some s) :
    ∃ params mapped ports ret ports' ret' probe,
      Mapping.checkMapping c.eal c.main c.ports c.params = some params ∧
      Mapping.initLcorePort c.eal c.main params (.start c.ports) = some (mapped, 0) ∧
      portInit c.eal c.dpdk c.global mapped.ports = (ports, ret) ∧ 0 ≤ ret ∧
      Probe.probeInit (c.probe ports) c.mallocOk c.poolCreateOk c.mem = .ok probe ∧
      portStart c.dpdk ports = (ports', ret') ∧ 0 ≤ ret' ∧
      s = { lcoreList := mapped.lcoreList, ports := ports', probe := probe
            pc := launch c mapped.lcoreList, bursts := [] } := by
  unfold startUp at h
  split at h
  case isTrue => cases h
  case isFalse =>
    obtain ⟨params, hcheck, h⟩ := Option.bind_eq_some_iff.mp h
    split at h
    case isTrue => cases h
    case isFalse =>
      obtain ⟨⟨mapped, ret₀⟩, hmap, h⟩ := Option.bind_eq_some_iff.mp h
      simp only at h
      split at h
      case isTrue => cases h
      case isFalse hret₀ =>
        have hzero : ret₀ = 0 := by
          rcases Mapping.initLcorePortLoop_ret hmap with hz | herr
          · exact hz
          · simp [herr, Port.errOutOfRange] at hret₀
        subst hzero
        rcases hinit : portInit c.eal c.dpdk c.global mapped.ports with ⟨ports, ret⟩
        rw [hinit] at h
        simp only at h
        split at h
        case isTrue => cases h
        case isFalse hret =>
          split at h
          case h_1 => cases h
          case h_2 probe hprobe =>
            rcases hstart : portStart c.dpdk ports with ⟨ports', ret'⟩
            rw [hstart] at h
            simp only at h
            split at h
            case isTrue => cases h
            case isFalse hret' =>
              exact ⟨params, mapped, ports, ret, ports', ret', probe, hcheck, hmap, hinit,
                Int.not_lt.mp hret, hprobe, hstart, Int.not_lt.mp hret',
                (Option.some.inj h).symm⟩

/-- What `probe_init` leaves. -/
theorem probeInit_eq_ok {cfg : Probe.Cfg} {mallocOk poolCreateOk : Bool}
    {mem : Nat → Probe.Mbuf} {probe : ProbeState}
    (h : Probe.probeInit cfg mallocOk poolCreateOk mem = .ok probe) :
    probe.pc = .idle ∧ probe.probeMp = List.range Probe.probePktMax ∧
      probe.probeList = fun i =>
        if i < cfg.nbPorts && cfg.portIsEnabled i then
          Probe.initLocalProbe cfg i Probe.txqLatency
        else .zero := by
  unfold Probe.probeInit at h
  split at h
  case isTrue => cases h
  case isFalse =>
    split at h
    case isTrue => cases h
    case isFalse =>
      obtain rfl := Except.ok.inj h
      simp only [true_and]

/-- What the lcores and ports are after `__init_lcore_port` succeeded. -/
abbrev Cfg.Applied (c : Cfg) (mapped : Mapping.State) : Prop :=
  Mapping.Applied c.eal c.main c.ports
    (validMappings c.eal c.main c.ports c.params.entries) mapped

theorem Cfg.Applied.portIsEnabled {mapped : Mapping.State} (h : c.Applied mapped) (p : UInt8) :
    portIsEnabled mapped.ports p = portIsEnabled c.ports p := by
  obtain ⟨_, hport⟩ := h.port p
  unfold Port.portIsEnabled
  rw [h.portNbMax, hport]

/-- An enabled port has an lcore for a job exactly when one was mapped. -/
theorem Cfg.Applied.lcoreMap_ne_iff {mapped : Mapping.State} (h : c.Applied mapped) {p : UInt8}
    {job : Job} (hon : Port.portIsEnabled c.ports p) :
    (mapped.ports.portList p).lcoreMap job ≠ c.eal.rteMaxLcore ↔ c.Mapped p job := by
  rw [mapped_iff hon]
  constructor
  · intro hne
    by_contra hnone
    rw [h.lcoreMap_of_not_mem p job (not_exists.mp hnone), (portIsEnabled_ports hon).2] at hne
    exact hne rfl
  · intro hmem
    obtain ⟨lcore, hmem⟩ := hmem
    have hmap := h.lcoreMap_of_mem _ hmem
    simp only at hmap
    rw [hmap]
    have hlt := c.eal.lt_of_enabled lcore
      (mappingOk_iff.mp (Mapping.mem_validMappings hmem).2).2.2.1
    intro heq
    rw [heq] at hlt
    exact UInt8.lt_irrefl _ hlt

theorem startUp_ready (h : startUp c = some s) : Ready c s := by
  obtain ⟨params, mapped, ports, ret, ports', ret', probe, hcheck, hmap, hinit, hret,
    hprobe, hstart, hret', rfl⟩ := startUp_eq_some h
  have happlied : c.Applied mapped := Mapping.initLcorePort_applied hcheck hmap
  have hprep := (Port.portInit_prepared hinit hret).trans
    (Port.portStart_prepared hstart hret')
  have hdev : mapped.ports.dev = .start := happlied.dev
  constructor
  case portIsEnabled =>
    intro p
    rw [hprep.portIsEnabled_eq, happlied.portIsEnabled]
  case queueid =>
    intro p
    apply hprep.queueid
    obtain ⟨_, hport⟩ := happlied.port p
    rw [hport]
    simp only [Cfg.ports, portParseOpt, portParse]
    split <;> rfl
  case rxQueues =>
    intro p hon hmapped
    rw [hprep.rxQueues]
    right
    left
    refine ⟨by rw [happlied.portIsEnabled]; exact hon, by simp [Job.all], ?_, rfl⟩
    exact (happlied.lcoreMap_ne_iff hon).mpr hmapped
  case txQueues =>
    intro p q
    rw [hprep.txQueues, hdev]
    simp only [Port.Device.start, List.not_mem_nil, false_or, Set.union_empty,
      Set.mem_ofPred_eq, happlied.portIsEnabled, Port.txNeeded, Prod.mk.injEq, true_and]
    constructor
    · intro hq
      exact ⟨hq.1, (happlied.lcoreMap_ne_iff hq.1).mp hq.2.2.1, hq.2.2.2⟩
    · intro hq
      exact ⟨hq.1, by simp [Job.all], (happlied.lcoreMap_ne_iff hq.1).mpr hq.2.1, hq.2.2⟩
  case jobs =>
    intro lcore job p hstat hmem
    have hvalid := (happlied.mem_jobs p job lcore hstat).mp hmem
    obtain ⟨-, hon, -, -⟩ := mappingOk_iff.mp (Mapping.mem_validMappings hvalid).2
    exact ⟨hon, (mapped_iff hon).mpr ⟨lcore, hvalid⟩⟩
  case pc =>
    intro lcore hpc hstat
    simp [launch, hstat] at hpc
  case probeCtl =>
    intro i hon
    obtain ⟨-, -, hlist⟩ := probeInit_eq_ok hprobe
    have hon' : portIsEnabled ports i = true := by
      rw [(Port.portInit_prepared hinit hret).portIsEnabled_eq, happlied.portIsEnabled]
      exact hon
    have hlt := (portIsEnabled_ports hon).1
    simp only [hlist]
    rw [if_pos (by simp [Cfg.probe, hlt, hon'])]
    exact ⟨rfl, rfl⟩
  case probePc =>
    intro i hpc
    rw [(probeInit_eq_ok hprobe).1] at hpc
    cases hpc

-- =================================================================== one step

/-- What a step of an RX/TX lcore can do: nothing but move, or one burst call
for a port of its lists. -/
theorem lcoreStep_cases {lcoreid jobState : UInt8} {call : Call}
    (h : lcoreStep s lcoreid jobState call = some s') :
    s.pc lcoreid ≠ .done ∧
    ((∃ pc, s' = s.setPc lcoreid pc) ∨
      (∃ portid pc, portid ∈ (s.lcoreList lcoreid).jobs .rx ∧
        s' = (processRx s portid).setPc lcoreid pc) ∨
      ∃ k portid, portid ∈ (s.lcoreList lcoreid).jobs .tx ∧
        s' = portTransmit s lcoreid k portid call) := by
  unfold lcoreStep at h
  simp only at h
  cases hpc : s.pc lcoreid with
  | head =>
      simp only [hpc] at h
      refine ⟨by simp, .inl ?_⟩
      split at h <;> exact ⟨_, (Option.some.inj h).symm⟩
  | rx k =>
      simp only [hpc] at h
      refine ⟨by simp, ?_⟩
      cases hport : ((s.lcoreList lcoreid).jobs .rx)[k]? with
      | some portid =>
          simp only [hport] at h
          exact .inr (.inl ⟨portid, _, List.mem_of_getElem? hport, (Option.some.inj h).symm⟩)
      | none =>
          simp only [hport] at h
          left
          split at h <;> exact ⟨_, (Option.some.inj h).symm⟩
  | tx k =>
      simp only [hpc] at h
      refine ⟨by simp, ?_⟩
      cases hport : ((s.lcoreList lcoreid).jobs .tx)[k]? with
      | some portid =>
          simp only [hport] at h
          exact .inr (.inr ⟨k, portid, List.mem_of_getElem? hport, (Option.some.inj h).symm⟩)
      | none =>
          simp only [hport] at h
          exact .inl ⟨_, (Option.some.inj h).symm⟩
  | sending =>
      simp only [hpc] at h
      cases h
  | done =>
      simp only [hpc] at h
      cases h

/-- What no step changes. -/
structure Steady (s s' : Sys) : Prop where
  lcoreList : s'.lcoreList = s.lcoreList
  dev : s'.ports.dev = s.ports.dev
  portIsEnabled : ∀ p, portIsEnabled s'.ports p = portIsEnabled s.ports p
  queueid : ∀ p, (s'.ports.portList p).txCtl.queueid = (s.ports.portList p).txCtl.queueid

theorem Steady.of_ports_eq (hlist : s'.lcoreList = s.lcoreList) (hports : s'.ports = s.ports) :
    Steady s s' := by
  constructor <;> simp [hlist, hports]

/-- A call of `port_transmit` writes the TX controller, not its queue. -/
theorem portTransmit_steady {lcoreid portid : UInt8} {k : ℕ} {call : Call} :
    Steady s (portTransmit s lcoreid k portid call) := by
  unfold portTransmit
  simp only
  split
  case h_1 => exact .of_ports_eq rfl rfl
  case h_2 r hr =>
    have hqueue := txCtlTxBurst_queueid hr
    have hports : ∀ s₁ : Sys, s₁.lcoreList = s.lcoreList → s₁.ports = s.ports →
        Steady s (({ s₁ with ports := (s₁.ports.setPort portid
          { s.ports.portList portid with txCtl := r.ctl }) } : Sys).setPc lcoreid
            (if r.ret < 0 then .done else .tx (k + 1))) := by
      intro s₁ hlist hports
      constructor
      · exact hlist
      · simp [Sys.setPc, Port.State.setPort, hports]
      · intro p
        simp only [Sys.setPc, Port.State.setPort, Port.portIsEnabled, hports]
        congr 1
        apply LastWrite.apply_update_of_eq (g := Port.PortInfo.isEnabled)
        rfl
      · intro p
        simp only [Sys.setPc, Port.State.setPort, hports]
        exact LastWrite.apply_update_of_eq (g := fun port : Port.PortInfo => port.txCtl.queueid)
          hqueue p
    split
    · exact hports _ rfl rfl
    · exact hports _ rfl rfl

/-- Its burst call, if there is one. -/
theorem portTransmit_bursts (s : Sys) (lcoreid portid : UInt8) (k : ℕ) (call : Call) :
    ∃ new, (portTransmit s lcoreid k portid call).bursts = new ++ s.bursts ∧
      ∀ b ∈ new, b = .tx portid (s.ports.portList portid).txCtl.queueid := by
  unfold portTransmit
  simp only
  split
  case h_1 => exact ⟨[_], rfl, by simp⟩
  case h_2 =>
    split
    · exact ⟨[_], rfl, by simp⟩
    · exact ⟨[], rfl, by simp⟩

theorem portTransmit_pc (s : Sys) (lcoreid portid : UInt8) (k : ℕ) (call : Call) :
    (portTransmit s lcoreid k portid call).probe = s.probe ∧
      ∃ pc, (portTransmit s lcoreid k portid call).pc = Function.update s.pc lcoreid pc := by
  unfold portTransmit
  simp only
  split
  case h_1 => exact ⟨rfl, _, rfl⟩
  case h_2 =>
    split
    · exact ⟨rfl, _, rfl⟩
    · exact ⟨rfl, _, rfl⟩

/-- What a step can do: an RX/TX lcore moves and bursts at most on a port of
its lists, or the callback takes a step. -/
theorem step_cases (h : step c s a = some s') :
    Steady s s' ∧ ∃ new, s'.bursts = new ++ s.bursts ∧
      ((∃ lcoreid pc, s.pc lcoreid ≠ .done ∧ s'.probe = s.probe ∧
          s'.pc = Function.update s.pc lcoreid pc ∧
          ∀ b ∈ new,
            (∃ p ∈ (s.lcoreList lcoreid).jobs .rx, b = .rx p rxqRx) ∨
            ∃ p ∈ (s.lcoreList lcoreid).jobs .tx,
              b = .tx p (s.ports.portList p).txCtl.queueid) ∨
        (s'.pc = s.pc ∧ ∃ act, Probe.step (c.probe s.ports) s.probe act = some s'.probe ∧
          new = probeBurst s.probe act)) := by
  cases a with
  | lcore lcoreid jobState call =>
      obtain ⟨hpc, ⟨pc, rfl⟩ | ⟨p, pc, hp, rfl⟩ | ⟨k, p, hp, rfl⟩⟩ := lcoreStep_cases h
      · exact ⟨.of_ports_eq rfl rfl, [], rfl, .inl ⟨lcoreid, pc, hpc, rfl, rfl, by simp⟩⟩
      · refine ⟨.of_ports_eq rfl rfl, [.rx p rxqRx], rfl, .inl ⟨lcoreid, pc, hpc, rfl, rfl, ?_⟩⟩
        intro b hb
        left
        exact ⟨p, hp, List.mem_singleton.mp hb⟩
      · obtain ⟨new, hnew, hb⟩ := portTransmit_bursts s lcoreid p k call
        obtain ⟨hprobe, pc, hpc'⟩ := portTransmit_pc s lcoreid p k call
        refine ⟨portTransmit_steady, new, hnew, .inl ⟨lcoreid, pc, hpc, hprobe, hpc', ?_⟩⟩
        intro b hmem
        right
        exact ⟨p, hp, hb b hmem⟩
  | probe act =>
      obtain ⟨probe, hprobe, rfl⟩ := Option.map_eq_some_iff.mp h
      exact ⟨.of_ports_eq rfl rfl, _, rfl, .inr ⟨rfl, act, hprobe, rfl⟩⟩

/-- The probe sender keeps the port and the queue of every control block, and
only comes to an offer of an enabled port. -/
theorem probeStep_ctl {cfg : Probe.Cfg} {probe probe' : ProbeState} {act : Probe.Act}
    (h : Probe.step cfg probe act = some probe') :
    (∀ i, (probe'.probeList i).portid = (probe.probeList i).portid ∧
      (probe'.probeList i).queueid = (probe.probeList i).queueid) ∧
    ∀ i, probe'.pc = .send i → cfg.Serves i ∨ probe.pc = .send i := by
  rcases Probe.step_cases h with ⟨pc, rfl, hpc⟩ | ⟨i, m, -, -, hi, -, -, rfl⟩ |
    ⟨tracing, i, m, -, -, rfl⟩ | ⟨tracing, i, m, -, -, rfl⟩ | ⟨m, -, -, rfl⟩
  · exact ⟨fun _ => ⟨rfl, rfl⟩, fun i hi => .inl (hpc i hi)⟩
  · refine ⟨fun j => ⟨?_, ?_⟩, ?_⟩
    · apply LastWrite.apply_update_of_eq (g := Probe.ProbeCtl.portid)
      rfl
    · apply LastWrite.apply_update_of_eq (g := Probe.ProbeCtl.queueid)
      rfl
    · intro j hj
      obtain rfl := Probe.Pc.send.inj hj
      exact .inl hi
  · exact ⟨fun _ => ⟨rfl, rfl⟩, nofun⟩
  · refine ⟨fun j => ⟨?_, ?_⟩, nofun⟩
    · apply LastWrite.apply_update_of_eq (g := Probe.ProbeCtl.portid)
      rfl
    · apply LastWrite.apply_update_of_eq (g := Probe.ProbeCtl.queueid)
      rfl
  · exact ⟨fun _ => ⟨rfl, rfl⟩, fun _ => .inr⟩

theorem Ready.step (hr : Ready c s) (h : step c s a = some s') : Ready c s' := by
  obtain ⟨hsteady, new, -, hcases⟩ := step_cases h
  constructor
  case portIsEnabled =>
    intro p
    rw [hsteady.portIsEnabled, hr.portIsEnabled]
  case queueid =>
    intro p
    rw [hsteady.queueid, hr.queueid]
  case rxQueues =>
    rw [hsteady.dev]
    exact hr.rxQueues
  case txQueues =>
    rw [hsteady.dev]
    exact hr.txQueues
  case jobs =>
    rw [hsteady.lcoreList]
    exact hr.jobs
  case pc =>
    rcases hcases with ⟨lcoreid, pc, hpc, -, hpc', -⟩ | ⟨hpc', -⟩
    · intro lcore hne
      by_cases hlcore : lcore = lcoreid
      · subst hlcore
        exact hr.pc lcore hpc
      · rw [hpc', Function.update_of_ne hlcore] at hne
        exact hr.pc lcore hne
    · rw [hpc']
      exact hr.pc
  case probeCtl =>
    rcases hcases with ⟨_, _, -, hprobe, -, -⟩ | ⟨-, act, hprobe, -⟩
    · rw [hprobe]
      exact hr.probeCtl
    · intro i hon
      obtain ⟨hport, hqueue⟩ := (probeStep_ctl hprobe).1 i
      rw [hport, hqueue]
      exact hr.probeCtl i hon
  case probePc =>
    rcases hcases with ⟨_, _, -, hprobe, -, -⟩ | ⟨-, act, hprobe, -⟩
    · rw [hprobe]
      exact hr.probePc
    · intro i hpc
      rcases (probeStep_ctl hprobe).2 i hpc with hserves | hpc
      · rw [← hr.portIsEnabled]
        exact hserves.2
      · exact hr.probePc i hpc

/-- Every burst call of a step uses a queue that was set up, unless it is the
probe of an enabled port. -/
theorem Ready.burst (hr : Ready c s) (h : Launch.step c s a = some s') :
    ∃ new, s'.bursts = new ++ s.bursts ∧
      ∀ b ∈ new, b.SetUp s.ports.dev ∨
        ∃ p, Port.portIsEnabled c.ports p ∧ b = .tx p txqLatency := by
  obtain ⟨-, new, hnew, hcases⟩ := step_cases h
  refine ⟨new, hnew, ?_⟩
  intro b hb
  rcases hcases with ⟨lcoreid, pc, hpc, -, -, hbursts⟩ | ⟨-, act, -, rfl⟩
  · left
    have hstat := hr.pc lcoreid hpc
    rcases hbursts b hb with ⟨p, hp, rfl⟩ | ⟨p, hp, rfl⟩
    · obtain ⟨hon, hmapped⟩ := hr.jobs lcoreid .rx p hstat hp
      exact hr.rxQueues p hon hmapped
    · obtain ⟨hon, hmapped⟩ := hr.jobs lcoreid .tx p hstat hp
      rw [hr.queueid]
      exact (hr.txQueues p txqTx).mpr ⟨hon, hmapped, .inl rfl⟩
  · right
    unfold probeBurst at hb
    split at hb
    case h_1 =>
      split at hb
      case h_1 i hpc =>
        obtain rfl := List.mem_singleton.mp hb
        have hon := hr.probePc i hpc
        obtain ⟨hport, hqueue⟩ := hr.probeCtl i hon
        exact ⟨i, hon, by rw [hport, hqueue]⟩
      case h_2 => cases hb
    case h_2 => cases hb

-- ================================================================= whole runs

/-- `Ready`, and every burst so far was on a queue that was set up. -/
structure Sound (c : Cfg) (s : Sys) : Prop extends Ready c s where
  setUp : ∀ b ∈ s.bursts, b.SetUp s.ports.dev

/-- In a program whose enabled ports all have a TX mapping. -/
theorem Sound.step (hmapped : ∀ p, Port.portIsEnabled c.ports p → c.Mapped p .tx)
    (hs : Sound c s) (h : Launch.step c s a = some s') : Sound c s' := by
  obtain ⟨hr, hset⟩ := hs
  refine ⟨hr.step h, ?_⟩
  obtain ⟨new, hnew, hb⟩ := hr.burst h
  have hdev := (step_cases h).1.dev
  intro b hmem
  rw [hnew, List.mem_append] at hmem
  rw [hdev]
  rcases hmem with hmem | hmem
  · rcases hb b hmem with hset | ⟨p, hon, rfl⟩
    · exact hset
    · exact (hr.txQueues p txqLatency).mpr ⟨hon, hmapped p hon, .inr rfl⟩
  · exact hset b hmem

theorem run_sound (hmapped : ∀ p, portIsEnabled c.ports p → c.Mapped p .tx)
    {acts : List Act} (hs : Sound c s) (hrun : Lts.run (step c) s acts = some s') :
    Sound c s' :=
  Lts.run_invariant_all (Sound.step hmapped) hs hrun

-- ========================================================= the probe's offer

/-- The callback at the head of its loop with nothing pending. -/
structure AtPort (i : UInt8) (probe : ProbeState) : Prop where
  pc : probe.pc = .next i
  nextPkt : ∀ j, (probe.probeList j).nextPkt = none
  probeMp : probe.probeMp ≠ []

/-- One enabled port, up to its offer. -/
theorem AtPort.offer {cfg : Probe.Cfg} {probe : ProbeState} {i : UInt8}
    (h : AtPort i probe) (hi : cfg.Serves i) :
    ∃ m, m ∈ probe.probeMp ∧
      Probe.step cfg probe (.next (some m)) = some (probe.build cfg i m) := by
  obtain ⟨m, hm⟩ := List.exists_mem_of_ne_nil _ h.probeMp
  refine ⟨m, hm, ?_⟩
  rw [Probe.step_build h.pc hi (h.nextPkt i), if_pos hm]

/-- One port, whether enabled or not: the callback can come to the next one. -/
theorem AtPort.pass {cfg : Probe.Cfg} {probe : ProbeState} {i : UInt8}
    (h : AtPort i probe) (hlt : i < cfg.nbPorts) :
    ∃ acts probe', Lts.run (Probe.step cfg) probe acts = some probe' ∧
      AtPort (i + 1) probe' := by
  cases hon : cfg.portIsEnabled i with
  | false =>
      refine ⟨[.next none], { probe with pc := .next (i + 1) }, ?_, rfl, h.nextPkt, h.probeMp⟩
      simp [Lts.run, Probe.step, h.pc, UInt8.not_le.mpr hlt, hon]
  | true =>
      obtain ⟨m, hm, hbuild⟩ := h.offer ⟨hlt, hon⟩
      refine ⟨[.next (some m), .send false 1],
        ((probe.build cfg i m).take cfg false i m), ?_, rfl, ?_, ?_⟩
      · rw [Lts.run_cons, hbuild]
        simp [Lts.run, Probe.step, ProbeState.build, ProbeState.take, ProbeState.setMbuf,
          ProbeState.setCtl]
      · intro j
        by_cases hj : j = i
        · subst hj
          simp [ProbeState.take]
        · simp [ProbeState.take, ProbeState.build, Function.update_of_ne hj, h.nextPkt]
      · -- its one reference is released
        simp [ProbeState.take, ProbeState.build, ProbeState.pktmbufFree]

/-- A tick can offer the probe of any port it serves. -/
theorem probe_offers {cfg : Probe.Cfg} {probe : ProbeState} (hidle : probe.pc = .idle)
    (hnone : ∀ j, (probe.probeList j).nextPkt = none) (hmp : probe.probeMp ≠ [])
    {p : UInt8} (hp : cfg.Serves p) :
    ∃ acts probe' m, Lts.run (Probe.step cfg) probe acts = some probe' ∧
      probe'.pc = .send p ∧ (probe'.probeList p).nextPkt = some m := by
  have hreach : ∀ k : ℕ, k ≤ p.toNat → ∃ acts probe',
      Lts.run (Probe.step cfg) probe acts = some probe' ∧ AtPort (UInt8.ofNat k) probe' := by
    intro k
    induction k with
    | zero =>
        intro _
        refine ⟨[.fire 2], { probe with pc := .next 0 }, ?_, rfl, hnone, hmp⟩
        have hrunning : (2 : UInt8) &&& (1 <<< Probe.lcoreJobTx) ≠ 0 := by decide
        simp [Lts.run, Probe.step, hidle, hrunning]
    | succ k ih =>
        intro hk
        obtain ⟨acts, probe₁, hrun, hat⟩ := ih (by omega)
        have hlt : UInt8.ofNat k < cfg.nbPorts := by
          apply UInt8.lt_trans ?_ hp.1
          rw [UInt8.lt_iff_toNat_lt, UInt8.toNat_ofNat']
          have hsize := p.toNat_lt
          omega
        obtain ⟨acts', probe₂, hrun', hat'⟩ := hat.pass hlt
        refine ⟨acts ++ acts', probe₂, ?_, ?_⟩
        · rw [Lts.run_append, hrun]
          exact hrun'
        · simpa using hat'
  obtain ⟨acts, probe₁, hrun, hat⟩ := hreach p.toNat le_rfl
  rw [UInt8.ofNat_toNat] at hat
  obtain ⟨m, hm, hbuild⟩ := hat.offer hp
  refine ⟨acts ++ [.next (some m)], probe₁.build cfg p m, m, ?_, rfl, by simp [ProbeState.build]⟩
  rw [Lts.run_append, hrun, Option.bind_some, Lts.run_cons, hbuild]
  rfl

/-- A run of the callback is a run of the program. -/
theorem run_probe {acts : List Probe.Act} {probe : ProbeState}
    (h : Lts.run (Probe.step (c.probe s.ports)) s.probe acts = some probe) :
    ∃ s', Lts.run (step c) s (acts.map .probe) = some s' ∧ s'.probe = probe ∧
      s'.ports = s.ports := by
  induction acts generalizing s with
  | nil => exact ⟨s, rfl, Option.some.inj h, rfl⟩
  | cons act acts ih =>
      obtain ⟨probe₁, hone, hrest⟩ := Lts.run_cons_eq_some.mp h
      obtain ⟨s', hrun, hprobe, hports⟩ := ih
        (s := { s with probe := probe₁, bursts := probeBurst s.probe act ++ s.bursts }) hrest
      refine ⟨s', ?_, hprobe, hports⟩
      rw [List.map_cons, Lts.run_cons, step, hone]
      exact hrun

/-- The probe sender after start-up: nothing pending, and a full pool. -/
theorem startUp_probe (h : startUp c = some s) :
    s.probe.pc = .idle ∧ (∀ j, (s.probe.probeList j).nextPkt = none) ∧
      s.probe.probeMp ≠ [] := by
  obtain ⟨_, _, ports, _, _, _, probe, _, _, _, _, hprobe, _, _, rfl⟩ := startUp_eq_some h
  obtain ⟨hidle, hmp, hlist⟩ := probeInit_eq_ok hprobe
  refine ⟨hidle, ?_, ?_⟩
  · intro j
    simp only [hlist]
    split <;> rfl
  · simp only [hmp]
    simp [Probe.probePktMax]

/-- Every enabled port's probe queue is used in some run. -/
theorem exists_probe_burst (h : startUp c = some s) {p : UInt8} (hon : portIsEnabled c.ports p) :
    ∃ acts s', Lts.run (step c) s acts = some s' ∧ .tx p txqLatency ∈ s'.bursts ∧
      s'.ports = s.ports := by
  have hr := startUp_ready h
  obtain ⟨hidle, hnone, hmp⟩ := startUp_probe h
  have hserves : (c.probe s.ports).Serves p :=
    ⟨(portIsEnabled_ports hon).1, (hr.portIsEnabled p).trans hon⟩
  obtain ⟨acts, probe, m, hrun, hpc, hpkt⟩ := probe_offers hidle hnone hmp hserves
  obtain ⟨s₁, hrun₁, rfl, hports⟩ := run_probe hrun
  have hr₁ : Ready c s₁ := Lts.run_invariant_all (fun hr h => Ready.step hr h) hr hrun₁
  obtain ⟨hport, hqueue⟩ := hr₁.probeCtl p hon
  obtain ⟨probe', hsend⟩ : ∃ probe', Probe.step (c.probe s₁.ports) s₁.probe (.send false 0)
      = some probe' := by
    simp [Probe.step, hpc, hpkt]
  refine ⟨acts.map .probe ++ [.probe (.send false 0)],
    { s₁ with
      probe := probe'
      bursts := probeBurst s₁.probe (.send false 0) ++ s₁.bursts }, ?_, ?_, hports⟩
  · rw [Lts.run_append, hrun₁, Option.bind_some, Lts.run_cons, step, hsend]
    rfl
  · simp [probeBurst, hpc, hport, hqueue]

/-- After a start-up: no run ever uses a queue that was not set up exactly when
every enabled port has a TX mapping. -/
theorem bursts_setUp_iff (h : startUp c = some s) :
    (∀ acts s', Lts.run (step c) s acts = some s' →
      ∀ b ∈ s'.bursts, b.SetUp s.ports.dev) ↔
    ∀ p, portIsEnabled c.ports p → c.Mapped p .tx := by
  have hr := startUp_ready h
  constructor
  · intro hall p hon
    obtain ⟨acts, s', hrun, hmem, -⟩ := exists_probe_burst h hon
    have hset := hall acts s' hrun _ hmem
    exact ((hr.txQueues p txqLatency).mp hset).2.1
  · intro hmapped acts s' hrun
    have hnil : s.bursts = [] := by
      obtain ⟨_, _, _, _, _, _, _, _, _, _, _, _, _, _, rfl⟩ := startUp_eq_some h
      rfl
    have hdev : s'.ports.dev = s.ports.dev :=
      Lts.run_invariant_all (I := fun t => t.ports.dev = s.ports.dev)
        (fun ht hstep => (step_cases hstep).1.dev.trans ht) rfl hrun
    rw [← hdev]
    exact (run_sound hmapped ⟨hr, by simp [hnil]⟩ hrun).setUp

-- ================================================================ two set-ups

/-- One port and four lcores, 0 for the measurement; every call succeeds. -/
def onePort (l : List LcoreParams) : Cfg :=
  { eal := Mapping.fourLcores
    dpdk :=
      { maxTxQueues := fun _ => 2
        rteEthDevConfigure := fun _ => 0
        rtePktmbufPoolCreate := fun _ _ => true
        rteEthRxQueueSetup := fun _ _ => 0
        rteEthTxQueueSetup := fun _ _ => 0
        rteEthDevStart := fun _ => 0 }
    rteEthDevCount := 1
    statLcore := 0
    portmask := 1
    params := .parsed l
    global := { cpuHz := 8, txRate := 64 }
    mallocOk := true
    poolCreateOk := true
    mem := fun _ => { pktLen := 0, dataLen := 0, olFlags := 0, data := Probe.fillProbe .zero }
    portGetPktSeq := fun _ => Probe.ProbeCtl.zero.pktConfigure
    pktTxIeee1588Tmst := 1 }

/-- With an RX and a TX mapping every burst of every run is on a queue that was
set up. -/
theorem bursts_setUp_iff_onePort :
    ∃ s, startUp (onePort [⟨0, .rx, 1⟩, ⟨0, .tx, 2⟩]) = some s ∧
      ∀ acts s', Lts.run (step (onePort [⟨0, .rx, 1⟩, ⟨0, .tx, 2⟩])) s acts = some s' →
        ∀ b ∈ s'.bursts, b.SetUp s.ports.dev := by
  have hsome : (startUp (onePort [⟨0, .rx, 1⟩, ⟨0, .tx, 2⟩])).isSome = true := by
    decide +kernel
  obtain ⟨s, h⟩ := Option.isSome_iff_exists.mp hsome
  refine ⟨s, h, (bursts_setUp_iff h).mpr ?_⟩
  intro p hon
  have hlt : p < 1 := (portIsEnabled_ports hon).1
  refine ⟨⟨0, .tx, 2⟩, by decide, ?_, rfl, by decide, by decide⟩
  rw [← UInt8.toNat_inj]
  rw [UInt8.lt_iff_toNat_lt] at hlt
  simp only [UInt8.toNat_zero, UInt8.toNat_one] at hlt ⊢
  omega

/-- With an RX mapping only, the first tick bursts on a TX queue that was not
set up. -/
theorem probe_burst_not_setUp :
    ∃ s acts s', startUp (onePort [⟨0, .rx, 1⟩]) = some s ∧
      Lts.run (step (onePort [⟨0, .rx, 1⟩])) s acts = some s' ∧
      ∃ b ∈ s'.bursts, ¬b.SetUp s.ports.dev := by
  have h : ((startUp (onePort [⟨0, .rx, 1⟩])).bind fun s =>
      (Lts.run (step (onePort [⟨0, .rx, 1⟩])) s
        [.probe (.fire 3), .probe (.next (some 0)), .probe (.send true 1)]).map fun s' =>
          s'.bursts.any fun b => !decide (b.SetUp s.ports.dev)) = some true := by
    decide +kernel
  obtain ⟨s, hstart, h⟩ := Option.bind_eq_some_iff.mp h
  obtain ⟨s', hrun, h⟩ := Option.map_eq_some_iff.mp h
  obtain ⟨b, hb, hnot⟩ := List.any_eq_true.mp h
  exact ⟨s, _, s', hstart, hrun, b, hb, by simpa using hnot⟩

end PktSender.Launch
