/-
Which queues `port_init` sets up when it succeeds.

# What a call adds

`Prepared rx tx s s'` says that between `s` and `s'` exactly the RX queues
`rx` and the TX queues `tx` were set up and that the ports are as before, up
to their pools and TX controllers. It composes, so each function has one
lemma, and the loops add up what their rounds add: a port gets its RX queue
when it has an RX lcore, and both its TX queues when it has a TX lcore
(`portInit_prepared`).
-/
import PktSender.Lib.LastWrite
import PktSender.Port.Basic
import Mathlib.Data.Set.Basic

namespace PktSender.Port

open Transmitter (Global txCtlInit)

variable {eal : Eal} {dpdk : Dpdk} {g : Global} {s s' s'' : State} {ret : Int}
  {portid : UInt8} {rx tx rx' tx' : Set (UInt8 × UInt8)}

/-- From `s` to `s'` these queues were set up, and no port changed its lcores. -/
structure Prepared (rx tx : Set (UInt8 × UInt8)) (s s' : State) : Prop where
  portNbMax : s'.portNbMax = s.portNbMax
  isEnabled : ∀ p, (s'.portList p).isEnabled = (s.portList p).isEnabled
  lcoreMap : ∀ p, (s'.portList p).lcoreMap = (s.portList p).lcoreMap
  queueid : ∀ p, (s.portList p).txCtl.queueid = txqTx → (s'.portList p).txCtl.queueid = txqTx
  rxQueues : ∀ x, x ∈ s'.dev.rxQueues ↔ x ∈ s.dev.rxQueues ∨ x ∈ rx
  txQueues : ∀ x, x ∈ s'.dev.txQueues ↔ x ∈ s.dev.txQueues ∨ x ∈ tx

theorem Prepared.refl : Prepared ∅ ∅ s s := by
  constructor <;> simp

theorem Prepared.trans (h : Prepared rx tx s s') (h' : Prepared rx' tx' s' s'') :
    Prepared (rx ∪ rx') (tx ∪ tx') s s'' where
  portNbMax := by rw [h'.portNbMax, h.portNbMax]
  isEnabled := fun p => by rw [h'.isEnabled, h.isEnabled]
  lcoreMap := fun p => by rw [h'.lcoreMap, h.lcoreMap]
  queueid := fun p hp => h'.queueid p (h.queueid p hp)
  rxQueues := fun x => by rw [h'.rxQueues, h.rxQueues, Set.mem_union, or_assoc]
  txQueues := fun x => by rw [h'.txQueues, h.txQueues, Set.mem_union, or_assoc]

theorem Prepared.portIsEnabled_eq (h : Prepared rx tx s s') (p : UInt8) :
    portIsEnabled s' p = portIsEnabled s p := by
  unfold portIsEnabled
  rw [h.portNbMax, h.isEnabled]

-- ================================================================== one call

/-- Writing a port's pools or TX controller, and counting a pool, sets up
nothing. -/
theorem setPort_prepared (dev : Device) {port : PortInfo}
    (henabled : port.isEnabled = (s.portList portid).isEnabled)
    (hmap : port.lcoreMap = (s.portList portid).lcoreMap)
    (hqueue : (s.portList portid).txCtl.queueid = txqTx → port.txCtl.queueid = txqTx)
    (hrx : dev.rxQueues = s.dev.rxQueues) (htx : dev.txQueues = s.dev.txQueues) :
    Prepared ∅ ∅ s { s.setPort portid port with dev := dev } where
  portNbMax := rfl
  isEnabled := LastWrite.apply_update_of_eq (g := PortInfo.isEnabled) henabled
  lcoreMap := LastWrite.apply_update_of_eq (g := PortInfo.lcoreMap) hmap
  queueid := by
    intro p
    by_cases hp : p = portid
    · subst hp
      simpa [State.setPort] using hqueue
    · simp [State.setPort, Function.update_of_ne hp]
  rxQueues := by simp [hrx]
  txQueues := by simp [htx]

/-- What is checked for an error was none, if none is returned. -/
theorem of_checked {ret' : Int} {failed : State} {rest : State × Int}
    (h : (if ret < 0 then (failed, ret) else rest) = (s', ret')) (hret : 0 ≤ ret') :
    0 ≤ ret ∧ rest = (s', ret') := by
  by_cases hlt : ret < 0
  · rw [if_pos hlt] at h
    obtain ⟨-, rfl⟩ := Prod.mk.inj h
    omega
  · rw [if_neg hlt] at h
    exact ⟨Int.not_lt.mp hlt, h⟩

/-- The mempools have nothing to do with queues. -/
theorem portInitRxPool_prepared (h : portInitRxPool dpdk s portid = (s', ret)) :
    Prepared ∅ ∅ s s' := by
  unfold portInitRxPool at h
  split at h
  · obtain ⟨rfl, rfl⟩ := Prod.mk.inj h
    exact setPort_prepared _ rfl rfl id rfl rfl
  · obtain ⟨rfl, rfl⟩ := Prod.mk.inj h
    exact setPort_prepared s.dev rfl rfl id rfl rfl

theorem portInitTxPool_prepared (h : portInitTxPool dpdk s portid = (s', ret)) :
    Prepared ∅ ∅ s s' := by
  unfold portInitTxPool at h
  split at h
  · obtain ⟨rfl, rfl⟩ := Prod.mk.inj h
    exact setPort_prepared _ rfl rfl id rfl rfl
  · obtain ⟨rfl, rfl⟩ := Prod.mk.inj h
    exact setPort_prepared s.dev rfl rfl id rfl rfl

/-- A set-up that succeeds is of this queue. -/
theorem rteEthRxQueueSetup_prepared {queueid : UInt8}
    (h : rteEthRxQueueSetup dpdk s portid queueid = (s', ret)) (hret : 0 ≤ ret) :
    Prepared {(portid, queueid)} ∅ s s' := by
  unfold rteEthRxQueueSetup at h
  obtain ⟨-, h⟩ := of_checked h hret
  obtain ⟨rfl, rfl⟩ := Prod.mk.inj h
  constructor <;> simp [or_comm]

theorem setupTxQueue_prepared {queueid : UInt8}
    (h : setupTxQueue dpdk s portid queueid = (s', ret)) (hret : 0 ≤ ret) :
    Prepared ∅ {(portid, queueid)} s s' := by
  unfold setupTxQueue at h
  split at h
  case isTrue =>
    obtain ⟨rfl, rfl⟩ := Prod.mk.inj h
    simp [errDpdk] at hret
  case isFalse =>
    obtain ⟨rfl, rfl⟩ := Prod.mk.inj h
    constructor <;> simp [or_comm]

-- ================================================================== one port

/-- The receiving job sets up one queue, -/
theorem portInitRx_prepared (h : portInitRx dpdk s portid = (s', ret)) (hret : 0 ≤ ret) :
    Prepared {(portid, rxqRx)} ∅ s s' := by
  unfold portInitRx at h
  rcases hpool : portInitRxPool dpdk s portid with ⟨s₁, ret₁⟩
  rw [hpool] at h
  simp only at h
  split at h
  case isTrue =>
    obtain ⟨rfl, rfl⟩ := Prod.mk.inj h
    simp [errMemory] at hret
  case isFalse =>
    rcases hqueue : rteEthRxQueueSetup dpdk s₁ portid rxqRx with ⟨s₂, ret₂⟩
    rw [hqueue] at h
    obtain ⟨-, h⟩ := of_checked h hret
    obtain ⟨rfl, rfl⟩ := Prod.mk.inj h
    simpa using (portInitRxPool_prepared hpool).trans
      (rteEthRxQueueSetup_prepared hqueue hret)

/-- the sending job two: the one of the traffic and the one of the probes. -/
theorem portInitTx_prepared (h : portInitTx dpdk g s portid = (s', ret)) (hret : 0 ≤ ret) :
    Prepared ∅ {(portid, txqTx), (portid, txqLatency)} s s' := by
  unfold portInitTx at h
  rcases hpool : portInitTxPool dpdk s portid with ⟨s₁, ret₁⟩
  rw [hpool] at h
  obtain ⟨-, h⟩ := of_checked h hret
  rcases hqueue : setupTxQueue dpdk s₁ portid txqTx with ⟨s₂, ret₂⟩
  rw [hqueue] at h
  obtain ⟨hok, h⟩ := of_checked h hret
  simp only at h
  have hctl : Prepared ∅ ∅ s₂ (s₂.setPort portid
      { s₂.portList portid with txCtl := txCtlInit g txqTx }) :=
    setPort_prepared s₂.dev rfl rfl (fun _ => rfl) rfl rfl
  generalize s₂.setPort portid _ = s₃ at h hctl
  rcases hprobe : setupTxQueue dpdk s₃ portid txqLatency with ⟨s₄, ret₄⟩
  rw [hprobe] at h
  obtain ⟨-, h⟩ := of_checked h hret
  obtain ⟨rfl, rfl⟩ := Prod.mk.inj h
  have hboth := (((portInitTxPool_prepared hpool).trans
    (setupTxQueue_prepared hqueue hok)).trans hctl).trans (setupTxQueue_prepared hprobe hret)
  rw [Set.pair_comm]
  simpa using hboth

/-- The queues a port needs for some of its jobs. -/
def rxNeeded (eal : Eal) (s : State) (portid : UInt8) (jobs : List Job) :
    Set (UInt8 × UInt8) :=
  {x | .rx ∈ jobs ∧ (s.portList portid).lcoreMap .rx ≠ eal.rteMaxLcore ∧
    x = (portid, rxqRx)}

def txNeeded (eal : Eal) (s : State) (portid : UInt8) (jobs : List Job) :
    Set (UInt8 × UInt8) :=
  {x | .tx ∈ jobs ∧ (s.portList portid).lcoreMap .tx ≠ eal.rteMaxLcore ∧
    (x = (portid, txqTx) ∨ x = (portid, txqLatency))}

theorem rxNeeded_congr (h : Prepared rx tx s s') (jobs : List Job) :
    rxNeeded eal s' portid jobs = rxNeeded eal s portid jobs := by
  unfold rxNeeded
  rw [h.lcoreMap]

theorem txNeeded_congr (h : Prepared rx tx s s') (jobs : List Job) :
    txNeeded eal s' portid jobs = txNeeded eal s portid jobs := by
  unfold txNeeded
  rw [h.lcoreMap]

/-- A job without an lcore needs no queue. -/
theorem needed_cons_of_eq {job : Job} (jobs : List Job)
    (h : (s.portList portid).lcoreMap job = eal.rteMaxLcore) :
    rxNeeded eal s portid (job :: jobs) = rxNeeded eal s portid jobs ∧
      txNeeded eal s portid (job :: jobs) = txNeeded eal s portid jobs := by
  constructor
  · ext x
    cases job <;> simp [rxNeeded, h]
  · ext x
    cases job <;> simp [txNeeded, h]

/-- The receiving job needs its queue, the sending one both of its own. -/
theorem needed_cons_rx (jobs : List Job)
    (h : (s.portList portid).lcoreMap .rx ≠ eal.rteMaxLcore) :
    rxNeeded eal s portid (.rx :: jobs) = {(portid, rxqRx)} ∪ rxNeeded eal s portid jobs ∧
      txNeeded eal s portid (.rx :: jobs) = txNeeded eal s portid jobs := by
  constructor
  · ext x
    simp [rxNeeded, h]
  · ext x
    simp [txNeeded]

theorem needed_cons_tx (jobs : List Job)
    (h : (s.portList portid).lcoreMap .tx ≠ eal.rteMaxLcore) :
    rxNeeded eal s portid (.tx :: jobs) = rxNeeded eal s portid jobs ∧
      txNeeded eal s portid (.tx :: jobs)
        = {(portid, txqTx), (portid, txqLatency)} ∪ txNeeded eal s portid jobs := by
  constructor
  · ext x
    simp [rxNeeded]
  · ext x
    simp [txNeeded, h]

/-- The jobs of a port set up what those that have an lcore need, by induction on
the list. -/
theorem portInitJobs_prepared {jobs : List Job}
    (h : portInitJobs eal dpdk g portid jobs s = (s', ret)) (hret : 0 ≤ ret) :
    Prepared (rxNeeded eal s portid jobs) (txNeeded eal s portid jobs) s s' := by
  induction jobs generalizing s with
  | nil =>
      obtain ⟨rfl, rfl⟩ := Prod.mk.inj h
      simpa [rxNeeded, txNeeded] using Prepared.refl
  | cons job jobs ih =>
      unfold portInitJobs at h
      split at h
      case isTrue hnone =>
        obtain ⟨hrx, htx⟩ := needed_cons_of_eq jobs hnone
        rw [hrx, htx]
        exact ih h
      case isFalse hsome =>
        cases job with
        | rx =>
            simp only at h
            rcases hinit : portInitRx dpdk s portid with ⟨s₁, ret₁⟩
            rw [hinit] at h
            obtain ⟨hok, h⟩ := of_checked h hret
            have hone := portInitRx_prepared hinit hok
            have hall := hone.trans (ih h)
            rw [rxNeeded_congr hone, txNeeded_congr hone, Set.empty_union] at hall
            obtain ⟨hrx, htx⟩ := needed_cons_rx jobs hsome
            rw [hrx, htx]
            exact hall
        | tx =>
            simp only at h
            rcases hinit : portInitTx dpdk g s portid with ⟨s₁, ret₁⟩
            rw [hinit] at h
            obtain ⟨hok, h⟩ := of_checked h hret
            have hone := portInitTx_prepared hinit hok
            have hall := hone.trans (ih h)
            rw [rxNeeded_congr hone, txNeeded_congr hone, Set.empty_union] at hall
            obtain ⟨hrx, htx⟩ := needed_cons_tx jobs hsome
            rw [hrx, htx]
            exact hall

/-- A port gets all its queues, -/
theorem portInitSingle_prepared (h : portInitSingle eal dpdk g s portid = (s', ret))
    (hret : 0 ≤ ret) :
    Prepared (rxNeeded eal s portid Job.all) (txNeeded eal s portid Job.all) s s' := by
  unfold portInitSingle at h
  obtain ⟨-, h⟩ := of_checked h hret
  exact portInitJobs_prepared h hret

-- ================================================================= all ports

/-- The queues the enabled ports among `ports` need. -/
def rxNeededBy (eal : Eal) (s : State) (ports : List UInt8) : Set (UInt8 × UInt8) :=
  {x | ∃ p ∈ ports, portIsEnabled s p ∧ x ∈ rxNeeded eal s p Job.all}

def txNeededBy (eal : Eal) (s : State) (ports : List UInt8) : Set (UInt8 × UInt8) :=
  {x | ∃ p ∈ ports, portIsEnabled s p ∧ x ∈ txNeeded eal s p Job.all}

/-- and so does every enabled port of the loop. -/
theorem portInitLoop_prepared {ports : List UInt8}
    (h : portInitLoop eal dpdk g ports s = (s', ret)) (hret : 0 ≤ ret) :
    Prepared (rxNeededBy eal s ports) (txNeededBy eal s ports) s s' := by
  induction ports generalizing s with
  | nil =>
      obtain ⟨rfl, rfl⟩ := Prod.mk.inj h
      simpa [rxNeededBy, txNeededBy] using Prepared.refl
  | cons p ports ih =>
      unfold portInitLoop at h
      split at h
      case isTrue hoff =>
        have hall := ih h
        have hoff : portIsEnabled s p = false := by simpa using hoff
        convert hall using 1
        · ext x
          simp [rxNeededBy, hoff]
        · ext x
          simp [txNeededBy, hoff]
      case isFalse hon =>
        have hon : portIsEnabled s p = true := by simpa using hon
        rcases hinit : portInitSingle eal dpdk g s p with ⟨s₁, ret₁⟩
        rw [hinit] at h
        obtain ⟨hok, h⟩ := of_checked h hret
        have hone := portInitSingle_prepared hinit hok
        have hall := hone.trans (ih h)
        convert hall using 1
        · ext x
          simp [rxNeededBy, hon, rxNeeded_congr hone, hone.portIsEnabled_eq]
        · ext x
          simp [txNeededBy, hon, txNeeded_congr hone, hone.portIsEnabled_eq]

theorem mem_portIds {portNbMax p : UInt8} : p ∈ portIds portNbMax ↔ p < portNbMax := by
  unfold portIds
  constructor
  · intro h
    obtain ⟨n, hn, rfl⟩ := List.mem_map.mp h
    have hlt := List.mem_range.mp hn
    have hsize := portNbMax.toNat_lt
    rw [UInt8.lt_iff_toNat_lt, UInt8.toNat_ofNat']
    omega
  · intro h
    apply List.mem_map.mpr
    refine ⟨p.toNat, List.mem_range.mpr (UInt8.lt_iff_toNat_lt.mp h), ?_⟩
    exact UInt8.ofNat_toNat

theorem lt_of_portIsEnabled {p : UInt8} (h : portIsEnabled s p) : p < s.portNbMax := by
  unfold portIsEnabled at h
  split at h
  case isTrue => cases h
  case isFalse hlt => exact UInt8.not_le.mp hlt

/-- After a successful `port_init`: the queues that were set up are the ones
the enabled ports need for the jobs that have an lcore. -/
theorem portInit_prepared (h : portInit eal dpdk g s = (s', ret)) (hret : 0 ≤ ret) :
    Prepared {x | portIsEnabled s x.1 ∧ x ∈ rxNeeded eal s x.1 Job.all}
      {x | portIsEnabled s x.1 ∧ x ∈ txNeeded eal s x.1 Job.all} s s' := by
  have hall := portInitLoop_prepared h hret
  convert hall using 1
  · ext ⟨p, q⟩
    constructor
    · intro hx
      exact ⟨p, mem_portIds.mpr (lt_of_portIsEnabled hx.1), hx⟩
    · intro hx
      obtain ⟨p', -, hon, hneed⟩ := hx
      obtain ⟨rfl, -⟩ := Prod.mk.inj hneed.2.2
      exact ⟨hon, hneed⟩
  · ext ⟨p, q⟩
    constructor
    · intro hx
      exact ⟨p, mem_portIds.mpr (lt_of_portIsEnabled hx.1), hx⟩
    · intro hx
      obtain ⟨p', -, hon, hneed⟩ := hx
      have hp : p = p' := by
        rcases hneed.2.2 with hq | hq <;> exact (Prod.mk.inj hq).1
      subst hp
      exact ⟨hon, hneed⟩

/-- `port_start` sets up nothing. -/
theorem portStartLoop_prepared {ports : List UInt8}
    (h : portStartLoop dpdk ports s = (s', ret)) (hret : 0 ≤ ret) :
    Prepared ∅ ∅ s s' := by
  induction ports generalizing s with
  | nil =>
      obtain ⟨rfl, rfl⟩ := Prod.mk.inj h
      exact Prepared.refl
  | cons p ports ih =>
      unfold portStartLoop at h
      split at h
      case isTrue => exact ih h
      case isFalse =>
        split at h
        case isTrue =>
          obtain ⟨rfl, rfl⟩ := Prod.mk.inj h
          simp [errDpdk] at hret
        case isFalse =>
          have hone : Prepared ∅ ∅ s
              { s with dev := { s.dev with started := p :: s.dev.started } } := by
            constructor <;> simp
          simpa using hone.trans (ih h)

/-- `port_start` sets up nothing. -/
theorem portStart_prepared (h : portStart dpdk s = (s', ret)) (hret : 0 ≤ ret) :
    Prepared ∅ ∅ s s' :=
  portStartLoop_prepared h hret

end PktSender.Port
