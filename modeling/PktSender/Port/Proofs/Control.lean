/-
The TX controllers that `port_init` leaves.

A controller that is initialised stays so through every call (`Keeps`), and
`portInitTx` initialises that of its port. So when `port_init` succeeds, every
enabled port with a TX lcore has one as `tx_ctl_init` makes it
(`portInit_control`).
-/
import PktSender.Port.Proofs.Setup

namespace PktSender.Port

open Transmitter (Global txCtlInit)

variable {eal : Eal} {dpdk : Dpdk} {g : Global} {s s' s'' : State} {ret : Int}
  {portid : UInt8}

/-- The controller of this port is as `tx_ctl_init` makes it. -/
def Controlled (g : Global) (s : State) (portid : UInt8) : Prop :=
  (s.portList portid).txCtl = txCtlInit g txqTx

/-- From `s` to `s'` no controller was changed that was initialised. -/
def Keeps (g : Global) (s s' : State) : Prop :=
  ∀ p, Controlled g s p → Controlled g s' p

theorem Keeps.refl : Keeps g s s := fun _ => id

theorem Keeps.trans (h : Keeps g s s') (h' : Keeps g s' s'') : Keeps g s s'' :=
  fun p hp => h' p (h p hp)

/-- Whatever is written to DPDK. -/
theorem Keeps.of_portList_eq (h : s'.portList = s.portList) : Keeps g s s' := by
  intro p hp
  rw [Controlled, h]
  exact hp

/-- A write to one port that leaves its controller, or initialises it. -/
theorem setPort_keeps {port : PortInfo} (dev : Device)
    (h : port.txCtl = (s.portList portid).txCtl ∨ port.txCtl = txCtlInit g txqTx) :
    Keeps g s { s.setPort portid port with dev := dev } := by
  intro p hp
  show (Function.update s.portList portid port p).txCtl = txCtlInit g txqTx
  by_cases hport : p = portid
  · subst hport
    rw [Function.update_self]
    rcases h with h | h
    · rw [h]
      exact hp
    · exact h
  · rw [Function.update_of_ne hport]
    exact hp

-- ================================================================== one port

theorem portInitRxPool_keeps : Keeps g s (portInitRxPool dpdk s portid).1 := by
  unfold portInitRxPool
  split
  · exact setPort_keeps _ (.inl rfl)
  · exact setPort_keeps s.dev (.inl rfl)

theorem portInitTxPool_keeps : Keeps g s (portInitTxPool dpdk s portid).1 := by
  unfold portInitTxPool
  split
  · exact setPort_keeps _ (.inl rfl)
  · exact setPort_keeps s.dev (.inl rfl)

theorem setupTxQueue_portList (queueid : UInt8) :
    (setupTxQueue dpdk s portid queueid).1.portList = s.portList := by
  unfold setupTxQueue
  split <;> rfl

/-- The receiving job has nothing to do with controllers. -/
theorem portInitRx_keeps (h : portInitRx dpdk s portid = (s', ret)) (hret : 0 ≤ ret) :
    Keeps g s s' := by
  have hpool := @portInitRxPool_keeps dpdk g s portid
  unfold portInitRx at h
  rcases hpool' : portInitRxPool dpdk s portid with ⟨s₁, ret₁⟩
  rw [hpool'] at h hpool
  simp only at h
  split at h
  case isTrue =>
    obtain ⟨rfl, rfl⟩ := Prod.mk.inj h
    simp [errMemory] at hret
  case isFalse =>
    rcases hqueue : rteEthRxQueueSetup dpdk s₁ portid rxqRx with ⟨s₂, ret₂⟩
    rw [hqueue] at h
    obtain ⟨hok, h⟩ := of_checked h hret
    obtain ⟨rfl, rfl⟩ := Prod.mk.inj h
    unfold rteEthRxQueueSetup at hqueue
    obtain ⟨-, hqueue⟩ := of_checked hqueue hok
    obtain ⟨rfl, rfl⟩ := Prod.mk.inj hqueue
    exact hpool.trans (.of_portList_eq rfl)

/-- The sending job initialises the controller. -/
theorem portInitTx_controls (h : portInitTx dpdk g s portid = (s', ret)) (hret : 0 ≤ ret) :
    Keeps g s s' ∧ Controlled g s' portid := by
  have hpool := @portInitTxPool_keeps dpdk g s portid
  unfold portInitTx at h
  rcases hpool' : portInitTxPool dpdk s portid with ⟨s₁, ret₁⟩
  rw [hpool'] at h hpool
  obtain ⟨-, h⟩ := of_checked h hret
  have hfirst := @setupTxQueue_portList dpdk s₁ portid txqTx
  rcases hqueue : setupTxQueue dpdk s₁ portid txqTx with ⟨s₂, ret₂⟩
  rw [hqueue] at h hfirst
  obtain ⟨-, h⟩ := of_checked h hret
  simp only at h
  have hctl : Keeps g s₂ (s₂.setPort portid
      { s₂.portList portid with txCtl := txCtlInit g txqTx }) :=
    setPort_keeps s₂.dev (.inr rfl)
  have hdone : Controlled g (s₂.setPort portid
      { s₂.portList portid with txCtl := txCtlInit g txqTx }) portid := by
    simp only [Controlled, State.setPort, Function.update_self]
  generalize s₂.setPort portid _ = s₃ at h hctl hdone
  have hsecond := @setupTxQueue_portList dpdk s₃ portid txqLatency
  rcases hprobe : setupTxQueue dpdk s₃ portid txqLatency with ⟨s₄, ret₄⟩
  rw [hprobe] at h hsecond
  obtain ⟨-, h⟩ := of_checked h hret
  obtain ⟨rfl, rfl⟩ := Prod.mk.inj h
  have hlast : Keeps g s₃ s₄ := .of_portList_eq hsecond
  exact ⟨((hpool.trans (.of_portList_eq hfirst)).trans hctl).trans hlast, hlast portid hdone⟩

/-- The jobs of a port one after the other: what the sending one initialises, those
behind it keep. -/
theorem portInitJobs_controls {jobs : List Job}
    (h : portInitJobs eal dpdk g portid jobs s = (s', ret)) (hret : 0 ≤ ret) :
    Keeps g s s' ∧
      (.tx ∈ jobs → (s.portList portid).lcoreMap .tx ≠ eal.rteMaxLcore →
        Controlled g s' portid) := by
  induction jobs generalizing s with
  | nil =>
      obtain ⟨rfl, rfl⟩ := Prod.mk.inj h
      exact ⟨.refl, fun hmem => absurd hmem List.not_mem_nil⟩
  | cons job jobs ih =>
      unfold portInitJobs at h
      split at h
      case isTrue hnone =>
        obtain ⟨hkeeps, hctl⟩ := ih h
        refine ⟨hkeeps, fun hmem hne => ?_⟩
        rcases List.mem_cons.mp hmem with rfl | hmem
        · exact absurd hnone hne
        · exact hctl hmem hne
      case isFalse hsome =>
        cases job with
        | rx =>
            simp only at h
            rcases hinit : portInitRx dpdk s portid with ⟨s₁, ret₁⟩
            rw [hinit] at h
            obtain ⟨hok, h⟩ := of_checked h hret
            obtain ⟨hkeeps, hctl⟩ := ih h
            refine ⟨(portInitRx_keeps hinit hok).trans hkeeps, fun hmem hne => ?_⟩
            rcases List.mem_cons.mp hmem with hjob | hmem
            · cases hjob
            · exact hctl hmem (by rwa [(portInitRx_prepared hinit hok).lcoreMap])
        | tx =>
            simp only at h
            rcases hinit : portInitTx dpdk g s portid with ⟨s₁, ret₁⟩
            rw [hinit] at h
            obtain ⟨hok, h⟩ := of_checked h hret
            obtain ⟨hone, hdone⟩ := portInitTx_controls hinit hok
            obtain ⟨hkeeps, -⟩ := ih h
            exact ⟨hone.trans hkeeps, fun _ _ => hkeeps portid hdone⟩

/-- A port with a TX lcore has an initialised controller afterwards. -/
theorem portInitSingle_controls (h : portInitSingle eal dpdk g s portid = (s', ret))
    (hret : 0 ≤ ret) :
    Keeps g s s' ∧
      ((s.portList portid).lcoreMap .tx ≠ eal.rteMaxLcore → Controlled g s' portid) := by
  unfold portInitSingle at h
  obtain ⟨-, h⟩ := of_checked h hret
  obtain ⟨hkeeps, hctl⟩ := portInitJobs_controls h hret
  exact ⟨hkeeps, hctl (by decide)⟩

-- ================================================================= all ports

/-- So have all ports of the loop: those that follow keep it. -/
theorem portInitLoop_controls {ports : List UInt8}
    (h : portInitLoop eal dpdk g ports s = (s', ret)) (hret : 0 ≤ ret) :
    Keeps g s s' ∧
      ∀ p ∈ ports, portIsEnabled s p → (s.portList p).lcoreMap .tx ≠ eal.rteMaxLcore →
        Controlled g s' p := by
  induction ports generalizing s with
  | nil =>
      obtain ⟨rfl, rfl⟩ := Prod.mk.inj h
      exact ⟨.refl, List.forall_mem_nil _⟩
  | cons p ports ih =>
      unfold portInitLoop at h
      split at h
      case isTrue hoff =>
        obtain ⟨hkeeps, hall⟩ := ih h
        refine ⟨hkeeps, List.forall_mem_cons.mpr ⟨fun hon => ?_, hall⟩⟩
        rw [hon] at hoff
        cases hoff
      case isFalse =>
        rcases hinit : portInitSingle eal dpdk g s p with ⟨s₁, ret₁⟩
        rw [hinit] at h
        obtain ⟨hok, h⟩ := of_checked h hret
        obtain ⟨hone, hctl⟩ := portInitSingle_controls hinit hok
        have hprep := portInitSingle_prepared hinit hok
        obtain ⟨hkeeps, hall⟩ := ih h
        refine ⟨hone.trans hkeeps, List.forall_mem_cons.mpr ⟨?_, ?_⟩⟩
        · exact fun _ hne => hkeeps p (hctl hne)
        · intro p' hp' hon hne
          refine hall p' hp' ?_ ?_
          · rwa [hprep.portIsEnabled_eq]
          · rwa [hprep.lcoreMap]

/-- After a successful `port_init` the enabled ports with a TX lcore have
controllers as `tx_ctl_init` makes them. -/
theorem portInit_control (h : portInit eal dpdk g s = (s', ret)) (hret : 0 ≤ ret) {p : UInt8}
    (hon : portIsEnabled s p) (hne : (s.portList p).lcoreMap .tx ≠ eal.rteMaxLcore) :
    Controlled g s' p :=
  (portInitLoop_controls h hret).2 p (mem_portIds.mpr (lt_of_portIsEnabled hon)) hon hne

/-- `port_start` writes to no port. -/
theorem portStartLoop_portList {ports : List UInt8} :
    (portStartLoop dpdk ports s).1.portList = s.portList := by
  induction ports generalizing s with
  | nil => rfl
  | cons p ports ih =>
      unfold portStartLoop
      split
      case isTrue => exact ih
      case isFalse =>
        split
        case isTrue => rfl
        case isFalse => exact ih

end PktSender.Port
