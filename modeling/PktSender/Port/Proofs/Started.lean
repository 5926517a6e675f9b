/-
The ports that are started.

`port_start` and `port_close` do not touch the mempools (`Same`), and nothing
else starts a port or closes one: `port_init` and `port_free` leave `started`
alone. When a port cannot be started, those before it are closed, and these are
all that were (`portStart_started`).
-/
import PktSender.Port.Proofs.Pools

namespace PktSender.Port

open Ledger
open Transmitter (Global)

variable {eal : Eal} {dpdk : Dpdk} {g : Global} {ports ports' ports'' : State} {ret : Int}
  {portid : UInt8}

-- ============================================================ the same pools

/-- The ports have the same mempools, and none was given back. -/
structure Same (ports ports' : State) : Prop where
  portNbMax : ports'.portNbMax = ports.portNbMax
  isEnabled : ∀ p, (ports'.portList p).isEnabled = (ports.portList p).isEnabled
  rxMp : ∀ p, (ports'.portList p).rxMp = (ports.portList p).rxMp
  txMp : ∀ p, (ports'.portList p).txMp = (ports.portList p).txMp
  freed : ports'.dev.freed = ports.dev.freed
  created : ports'.dev.created = ports.dev.created

theorem Same.refl : Same ports ports := ⟨rfl, fun _ => rfl, fun _ => rfl, fun _ => rfl, rfl, rfl⟩

theorem Same.trans (h : Same ports ports') (h' : Same ports' ports'') : Same ports ports'' where
  portNbMax := h'.portNbMax.trans h.portNbMax
  isEnabled := fun p => (h'.isEnabled p).trans (h.isEnabled p)
  rxMp := fun p => (h'.rxMp p).trans (h.rxMp p)
  txMp := fun p => (h'.txMp p).trans (h.txMp p)
  freed := h'.freed.trans h.freed
  created := h'.created.trans h.created

/-- A write to a port that leaves its mempools. -/
theorem same_setPort {portid : UInt8} {port : PortInfo}
    (henabled : port.isEnabled = (ports.portList portid).isEnabled)
    (hrx : port.rxMp = (ports.portList portid).rxMp)
    (htx : port.txMp = (ports.portList portid).txMp) : Same ports (ports.setPort portid port) where
  portNbMax := rfl
  isEnabled := LastWrite.apply_update_of_eq (g := PortInfo.isEnabled) henabled
  rxMp := LastWrite.apply_update_of_eq (g := PortInfo.rxMp) hrx
  txMp := LastWrite.apply_update_of_eq (g := PortInfo.txMp) htx
  freed := rfl
  created := rfl

/-- A write to DPDK that leaves them too. -/
theorem same_dev {dev : Device} (hfreed : dev.freed = ports.dev.freed)
    (hcreated : dev.created = ports.dev.created) : Same ports { ports with dev := dev } :=
  ⟨rfl, fun _ => rfl, fun _ => rfl, fun _ => rfl, hfreed, hcreated⟩

/-- The same ports are enabled, -/
theorem Same.portIsEnabled_eq (h : Same ports ports') (p : UInt8) :
    portIsEnabled ports' p = portIsEnabled ports p := by
  unfold portIsEnabled
  rw [h.portNbMax, h.isEnabled]

theorem Same.noPool (h : Same ports ports') {p : UInt8} (hnone : (ports.portList p).NoPool) :
    (ports'.portList p).NoPool :=
  ⟨(h.rxMp p).trans hnone.1, (h.txMp p).trans hnone.2⟩

/-- ports without pools still have none, -/
theorem Same.noPools (h : Same ports ports') (hnone : NoPools ports) : NoPools ports' :=
  fun p hp => h.noPool (hnone p (h.portNbMax ▸ hp))

/-- and the books of the pools are the same. -/
theorem Same.books_eq (h : Same ports ports') : books ports' = books ports := by
  unfold books PortInfo.pools
  rw [h.portNbMax, h.freed, h.created]
  simp only [h.rxMp, h.txMp]

-- ========================================================= what starts nothing

@[simp]
theorem freePool_started (dev : Device) (mp : Option Mempool) :
    (dev.freePool mp).started = dev.started := by
  cases mp <;> rfl

@[simp]
theorem freeMp_started (ports : State) (portid : UInt8) :
    (freeMp ports portid).dev.started = ports.dev.started := by
  simp [freeMp]

@[simp]
theorem portInitRxPool_started :
    (portInitRxPool dpdk ports portid).1.dev.started = ports.dev.started := by
  unfold portInitRxPool
  simp only
  split <;> rfl

@[simp]
theorem portInitTxPool_started :
    (portInitTxPool dpdk ports portid).1.dev.started = ports.dev.started := by
  unfold portInitTxPool
  simp only
  split <;> rfl

@[simp]
theorem rteEthRxQueueSetup_started (queueid : UInt8) :
    (rteEthRxQueueSetup dpdk ports portid queueid).1.dev.started = ports.dev.started := by
  unfold rteEthRxQueueSetup
  simp only
  split <;> rfl

@[simp]
theorem setupTxQueue_started (queueid : UInt8) :
    (setupTxQueue dpdk ports portid queueid).1.dev.started = ports.dev.started := by
  unfold setupTxQueue
  split <;> rfl

/-- Neither job of a port starts it, -/
theorem portInitRx_started : (portInitRx dpdk ports portid).1.dev.started = ports.dev.started := by
  unfold portInitRx
  simp only
  split
  · simp
  · split <;> simp

theorem portInitTx_started :
    (portInitTx dpdk g ports portid).1.dev.started = ports.dev.started := by
  unfold portInitTx
  simp only
  split
  · simp
  · split
    · simp
    · split <;> simp [State.setPort]

/-- nor do the jobs one after the other. -/
theorem portInitJobs_started {jobs : List Job} :
    (portInitJobs eal dpdk g portid jobs ports).1.dev.started = ports.dev.started := by
  induction jobs generalizing ports with
  | nil => rfl
  | cons job jobs ih =>
      unfold portInitJobs
      split
      · exact ih
      · cases job with
        | rx =>
            simp only
            split
            · exact portInitRx_started
            · exact ih.trans portInitRx_started
        | tx =>
            simp only
            split
            · exact portInitTx_started
            · exact ih.trans portInitTx_started

theorem portInitSingle_started :
    (portInitSingle eal dpdk g ports portid).1.dev.started = ports.dev.started := by
  unfold portInitSingle
  simp only
  split
  · rfl
  · exact portInitJobs_started

/-- Giving back the pools of some ports closes none. -/
theorem foldl_portFreeSingle_started (l : List UInt8) (ports : State) :
    (l.foldl portFreeSingle ports).dev.started = ports.dev.started := by
  induction l generalizing ports with
  | nil => rfl
  | cons p l ih =>
      refine (ih _).trans ?_
      unfold portFreeSingle
      split
      · rfl
      · exact freeMp_started ports p

theorem portFree_started (ports : State) : (portFree ports).dev.started = ports.dev.started :=
  foldl_portFreeSingle_started _ _

/-- `port_init` from any port on, also when it fails and gives back the pools of
the ports before. -/
theorem portInitLoop_started {l : List UInt8} :
    (portInitLoop eal dpdk g l ports).1.dev.started = ports.dev.started := by
  induction l generalizing ports with
  | nil => rfl
  | cons p l ih =>
      unfold portInitLoop
      split
      · exact ih
      · simp only
        split
        · exact (foldl_portFreeSingle_started _ _).trans portInitSingle_started
        · exact ih.trans portInitSingle_started

/-- `port_init` starts nothing. -/
theorem portInit_started (h : portInit eal dpdk g ports = (ports', ret)) :
    ports'.dev.started = ports.dev.started := by
  have hloop := @portInitLoop_started eal dpdk g ports (portIds ports.portNbMax)
  rw [show portInitLoop eal dpdk g (portIds ports.portNbMax) ports = (ports', ret) from h] at hloop
  exact hloop

-- ============================================================ what is started

/-- Closing some ports: no pool is touched, and what is started was started before
and is none of them. -/
theorem foldl_close (ports : List UInt8) (dev : Device) :
    (ports.foldl Device.close dev).freed = dev.freed
      ∧ (ports.foldl Device.close dev).created = dev.created
      ∧ ∀ p ∈ (ports.foldl Device.close dev).started, p ∈ dev.started ∧ p ∉ ports := by
  induction ports generalizing dev with
  | nil => exact ⟨rfl, rfl, fun p hp => ⟨hp, List.not_mem_nil⟩⟩
  | cons q ports ih =>
      obtain ⟨hfreed, hcreated, hstarted⟩ := ih (dev.close q)
      refine ⟨hfreed, hcreated, fun p hp => ?_⟩
      obtain ⟨hmem, hnot⟩ := hstarted p hp
      obtain ⟨hmem, hne⟩ := List.mem_filter.mp hmem
      have hne : p ≠ q := of_decide_eq_true hne
      exact ⟨hmem, fun hin => (List.mem_cons.mp hin).elim hne hnot⟩

/-- Closing all that may be started leaves none. -/
theorem started_foldl_close {ports : List UInt8} {dev : Device}
    (h : ∀ p ∈ dev.started, p ∈ ports) : (ports.foldl Device.close dev).started = [] := by
  refine List.eq_nil_iff_forall_not_mem.mpr fun p hp => ?_
  obtain ⟨hmem, hnot⟩ := (foldl_close ports dev).2.2 p hp
  exact hnot (h p hmem)

/-- `port_start` from any port on: those below it that are enabled are started,
and after a failure they are closed. -/
theorem portStartLoop_started {l : List UInt8}
    (hsorted : l.Pairwise (· < ·))
    (hstarted : ∀ p ∈ ports.dev.started, portIsEnabled ports p ∧ ∀ q ∈ l, p < q)
    (h : portStartLoop dpdk l ports = (ports', ret)) :
    Same ports ports' ∧ (ret < 0 → ports'.dev.started = [])
      ∧ ∀ p ∈ ports'.dev.started, portIsEnabled ports' p := by
  induction l generalizing ports with
  | nil =>
      cases h
      exact ⟨Same.refl, fun hneg => absurd hneg (Int.lt_irrefl 0), fun p hp => (hstarted p hp).1⟩
  | cons q l ih =>
      obtain ⟨hfirst, hsorted⟩ := List.pairwise_cons.mp hsorted
      rw [portStartLoop] at h
      split at h
      case isTrue =>
        exact ih hsorted (fun p hp => ⟨(hstarted p hp).1,
          fun q' hq' => (hstarted p hp).2 q' (List.mem_cons_of_mem _ hq')⟩) h
      case isFalse hon =>
        have hon : portIsEnabled ports q = true := by simpa using hon
        split at h
        case isTrue =>
          cases h
          -- those started are enabled ports below `q`
          have hnone : (((portIds q).filter (portIsEnabled ports)).foldl Device.close
              ports.dev).started = [] := by
            refine started_foldl_close fun p hp => ?_
            obtain ⟨hpon, hlt⟩ := hstarted p hp
            exact List.mem_filter.mpr ⟨mem_portIds.mpr (hlt q List.mem_cons_self), hpon⟩
          obtain ⟨hfreed, hcreated, -⟩ := foldl_close
            ((portIds q).filter (portIsEnabled ports)) ports.dev
          refine ⟨same_dev hfreed hcreated, fun _ => hnone, fun p hp => ?_⟩
          have hp : p ∈ (((portIds q).filter (portIsEnabled ports)).foldl Device.close
              ports.dev).started := hp
          rw [hnone] at hp
          exact absurd hp List.not_mem_nil
        case isFalse =>
          have hone : Same ports { ports with
              dev := { ports.dev with started := q :: ports.dev.started } } := same_dev rfl rfl
          obtain ⟨hsame, hfail, hon'⟩ := ih hsorted (fun p hp => by
            rcases List.mem_cons.mp hp with rfl | hp
            · exact ⟨hon, hfirst⟩
            · exact ⟨(hstarted p hp).1,
                fun q' hq' => (hstarted p hp).2 q' (List.mem_cons_of_mem _ hq')⟩) h
          exact ⟨hone.trans hsame, hfail, hon'⟩

/-- `port_start`: on a failure no port is left started, and only enabled ones are
started at all. -/
theorem portStart_started (hnone : ports.dev.started = [])
    (h : portStart dpdk ports = (ports', ret)) :
    Same ports ports' ∧ (ret < 0 → ports'.dev.started = [])
      ∧ ∀ p ∈ ports'.dev.started, portIsEnabled ports' p := by
  refine portStartLoop_started (pairwise_portIds _) (fun p hp => ?_) h
  rw [hnone] at hp
  exact absurd hp List.not_mem_nil

end PktSender.Port
