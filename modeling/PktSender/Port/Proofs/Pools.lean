/-
Every mempool `port_init` creates is freed once.

# One port

`Accounted` says that a call touches one port only and that its pools balance:
none is lost and none is freed twice. A failed call leaves the port without
pools (`Cleans`): before the first queue a port has at most the pool whose
creation failed, and afterwards the code goes to `fail_free_mp`.

# All ports

The balance of one port is one of all (`Tallied`). When a port fails, the ones
before it are freed by the loop after `fail_clear`, and the ones behind it have
not had a pool yet; so all pointers are NULL, and what was freed is what was
created.
-/
import PktSender.Lib.Ledger
import PktSender.Port.Proofs.Setup

namespace PktSender.Port

open Ledger Transmitter

variable {eal : Eal} {dpdk : Dpdk} {g : Global} {s s' s'' : State} {r : State × Int}
  {ret : Int} {portid : UInt8}

/-- The pools a port points to. -/
def PortInfo.pools (port : PortInfo) : Multiset Mempool :=
  ↑(port.rxMp.toList ++ port.txMp.toList)

/-- Both pointers are NULL. -/
def PortInfo.NoPool (port : PortInfo) : Prop := port.rxMp = none ∧ port.txMp = none

theorem PortInfo.NoPool.pools_eq {port : PortInfo} (h : port.NoPool) : port.pools = 0 := by
  unfold PortInfo.pools
  rw [h.1, h.2]
  rfl

-- ================================================================== one port

/-- The ledger of one port. -/
def portBooks (s : State) (portid : UInt8) : Books :=
  ⟨(s.portList portid).pools, ↑s.dev.freed, s.dev.created⟩

/-- Only this port changed, and its pools balance. -/
structure Accounted (portid : UInt8) (s s' : State) : Prop where
  portNbMax : s'.portNbMax = s.portNbMax
  isEnabled : ∀ p, (s'.portList p).isEnabled = (s.portList p).isEnabled
  others : ∀ p, p ≠ portid → s'.portList p = s.portList p
  freed : s.dev.freed <:+ s'.dev.freed
  balanced : Balanced (portBooks s portid) (portBooks s' portid)

theorem Accounted.refl : Accounted portid s s :=
  ⟨rfl, fun _ => rfl, fun _ _ => rfl, List.suffix_rfl, Balanced.refl _⟩

theorem Accounted.trans (h : Accounted portid s s') (h' : Accounted portid s' s'') :
    Accounted portid s s'' where
  portNbMax := h'.portNbMax.trans h.portNbMax
  isEnabled := fun p => (h'.isEnabled p).trans (h.isEnabled p)
  others := fun p hp => (h'.others p hp).trans (h.others p hp)
  freed := h.freed.trans h'.freed
  balanced := h.balanced.trans h'.balanced

/-- A write to the port, with what happens to the pools. -/
theorem accounted_setPort {port : PortInfo} (dev : Device)
    (henabled : port.isEnabled = (s.portList portid).isEnabled)
    (hfreed : s.dev.freed <:+ dev.freed)
    (hbalanced : Balanced (portBooks s portid) ⟨port.pools, ↑dev.freed, dev.created⟩) :
    Accounted portid s { s.setPort portid port with dev := dev } where
  portNbMax := rfl
  isEnabled := LastWrite.apply_update_of_eq (g := PortInfo.isEnabled) henabled
  others := fun _ hp => Function.update_of_ne hp _ _
  freed := hfreed
  balanced := by
    unfold portBooks State.setPort at *
    simp only [Function.update_self]
    exact hbalanced

/-- A queue that is set up, or a port that is configured. -/
theorem accounted_dev {dev : Device} (hfreed : dev.freed = s.dev.freed)
    (hcreated : dev.created = s.dev.created) : Accounted portid s { s with dev := dev } where
  portNbMax := rfl
  isEnabled := fun _ => rfl
  others := fun _ _ => rfl
  freed := hfreed ▸ List.suffix_rfl
  balanced := by
    unfold portBooks
    rw [hfreed, hcreated]
    exact Balanced.refl _

theorem portInitRxPool_accounted (hrx : (s.portList portid).rxMp = none)
    (h : portInitRxPool dpdk s portid = (s', ret)) :
    Accounted portid s s' ∧ s'.dev.freed = s.dev.freed
      ∧ (s'.portList portid).txMp = (s.portList portid).txMp
      ∧ (ret < 0 → (s'.portList portid).rxMp = none) := by
  unfold portInitRxPool at h
  split at h
  · obtain ⟨rfl, rfl⟩ := Prod.mk.inj h
    refine ⟨accounted_setPort _ rfl List.suffix_rfl ?_, rfl, ?_,
      fun hret => absurd hret (by decide)⟩
    · unfold portBooks PortInfo.pools
      rw [hrx]
      exact balanced_create _ _ _
    · simp [State.setPort]
  · obtain ⟨rfl, rfl⟩ := Prod.mk.inj h
    refine ⟨accounted_setPort s.dev rfl List.suffix_rfl ?_, rfl, ?_, fun _ => ?_⟩
    · unfold portBooks PortInfo.pools
      rw [hrx]
      exact Balanced.refl _
    · simp [State.setPort]
    · simp [State.setPort]

theorem portInitTxPool_accounted (htx : (s.portList portid).txMp = none)
    (h : portInitTxPool dpdk s portid = (s', ret)) :
    Accounted portid s s' ∧ s'.dev.freed = s.dev.freed := by
  unfold portInitTxPool at h
  split at h
  · obtain ⟨rfl, rfl⟩ := Prod.mk.inj h
    refine ⟨accounted_setPort _ rfl List.suffix_rfl ?_, rfl⟩
    unfold portBooks PortInfo.pools
    rw [htx]
    simp only [Option.toList_some, Option.toList_none, List.append_nil, ← Multiset.coe_add,
      Multiset.coe_singleton, add_comm _ ({s.dev.created} : Multiset ℕ),
      Multiset.singleton_add]
    exact balanced_create _ _ _
  · obtain ⟨rfl, rfl⟩ := Prod.mk.inj h
    refine ⟨accounted_setPort s.dev rfl List.suffix_rfl ?_, rfl⟩
    unfold portBooks PortInfo.pools
    rw [htx]
    exact Balanced.refl _

theorem rteEthRxQueueSetup_accounted {queueid : UInt8}
    (h : rteEthRxQueueSetup dpdk s portid queueid = (s', ret)) :
    Accounted portid s s' ∧ s'.dev.freed = s.dev.freed ∧ s'.portList = s.portList := by
  unfold rteEthRxQueueSetup at h
  simp only at h
  split at h
  · obtain ⟨rfl, rfl⟩ := Prod.mk.inj h
    exact ⟨Accounted.refl, rfl, rfl⟩
  · obtain ⟨rfl, rfl⟩ := Prod.mk.inj h
    exact ⟨accounted_dev rfl rfl, rfl, rfl⟩

theorem setupTxQueue_accounted {queueid : UInt8}
    (h : setupTxQueue dpdk s portid queueid = (s', ret)) :
    Accounted portid s s' ∧ s'.dev.freed = s.dev.freed := by
  unfold setupTxQueue at h
  split at h
  · obtain ⟨rfl, rfl⟩ := Prod.mk.inj h
    exact ⟨Accounted.refl, rfl⟩
  · obtain ⟨rfl, rfl⟩ := Prod.mk.inj h
    exact ⟨accounted_dev rfl rfl, rfl⟩

@[simp]
theorem freePool_freed (dev : Device) (mp : Option Mempool) :
    (dev.freePool mp).freed = mp.toList ++ dev.freed := by
  cases mp <;> rfl

@[simp]
theorem freePool_created (dev : Device) (mp : Option Mempool) :
    (dev.freePool mp).created = dev.created := by
  cases mp <;> rfl

/-- The clean-up of a port frees what it has. -/
theorem freeMp_accounted (s : State) (portid : UInt8) :
    Accounted portid s (freeMp s portid) ∧ ((freeMp s portid).portList portid).NoPool
      ∧ (freeMp s portid).dev.created = s.dev.created := by
  refine ⟨accounted_setPort _ rfl ?_ ?_, ?_, ?_⟩
  · rw [freePool_freed, freePool_freed, ← List.append_assoc]
    exact List.suffix_append _ _
  · have hfreed : (((s.portList portid).txMp.toList ++ ((s.portList portid).rxMp.toList
          ++ s.dev.freed) : List Mempool) : Multiset Mempool)
        = (s.portList portid).pools + ↑s.dev.freed := by
      unfold PortInfo.pools
      rw [← Multiset.coe_add, ← Multiset.coe_add, ← Multiset.coe_add]
      abel
    rw [freePool_freed, freePool_freed, freePool_created, freePool_created, hfreed]
    exact balanced_release _ _ _
  · simp [freeMp, State.setPort, PortInfo.NoPool]
  · simp [freeMp]

/-- What a call for one port does: it keeps the books, without freeing a pool
when it succeeds and without leaving one when it fails. -/
structure Cleans (portid : UInt8) (s : State) (r : State × Int) : Prop where
  accounted : Accounted portid s r.1
  failed : r.2 < 0 → (r.1.portList portid).NoPool
  kept : 0 ≤ r.2 → r.1.dev.freed = s.dev.freed

/-- One call after another that succeeded. -/
theorem Cleans.after {ret : Int} (h : Cleans portid s (s', ret)) (hret : 0 ≤ ret)
    (h' : Cleans portid s' r) : Cleans portid s r where
  accounted := h.accounted.trans h'.accounted
  failed := h'.failed
  kept := fun hr => (h'.kept hr).trans (h.kept hret)

/-- The check that leads to `fail_free_mp`. -/
theorem cleans_checked (h : Accounted portid s s')
    (hrest : 0 ≤ ret → Cleans portid s r) :
    Cleans portid s (if ret < 0 then (freeMp s' portid, ret) else r) := by
  by_cases hlt : ret < 0
  · rw [if_pos hlt]
    obtain ⟨hfree, hnone, -⟩ := freeMp_accounted s' portid
    exact ⟨h.trans hfree, fun _ => hnone, fun hret => absurd hlt (Int.not_lt.mpr hret)⟩
  · rw [if_neg hlt]
    exact hrest (Int.not_lt.mp hlt)

theorem portInitRx_cleans (h : (s.portList portid).NoPool) :
    Cleans portid s (portInitRx dpdk s portid)
      ∧ (0 ≤ (portInitRx dpdk s portid).2 →
        ((portInitRx dpdk s portid).1.portList portid).txMp = none) := by
  unfold portInitRx
  rcases hpool : portInitRxPool dpdk s portid with ⟨s₁, ret₁⟩
  obtain ⟨hacc, hfreed, htx, hrx⟩ := portInitRxPool_accounted h.1 hpool
  rw [h.2] at htx
  simp only
  by_cases hlt : ret₁ < 0
  · -- the pool was not created, and there is no other
    rw [if_pos hlt]
    have herr : ¬ 0 ≤ errMemory := by decide
    exact ⟨⟨hacc, fun _ => ⟨hrx hlt, htx⟩, fun hret => absurd hret herr⟩,
      fun hret => absurd hret herr⟩
  · rw [if_neg hlt]
    rcases hqueue : rteEthRxQueueSetup dpdk s₁ portid rxqRx with ⟨s₂, ret₂⟩
    obtain ⟨hacc₂, hfreed₂, hlist⟩ := rteEthRxQueueSetup_accounted hqueue
    have hboth := hacc.trans hacc₂
    refine ⟨cleans_checked hboth fun hret => ⟨hboth, fun hneg => ?_, fun _ => ?_⟩, ?_⟩
    · exact absurd hneg (Int.not_lt.mpr hret)
    · exact hfreed₂.trans hfreed
    · simp only
      split
      next hneg => exact fun hret => absurd hneg (Int.not_lt.mpr hret)
      next =>
        intro _
        rw [hlist]
        exact htx

theorem portInitTx_cleans (h : (s.portList portid).txMp = none) :
    Cleans portid s (portInitTx dpdk g s portid) := by
  unfold portInitTx
  rcases hpool : portInitTxPool dpdk s portid with ⟨s₁, ret₁⟩
  obtain ⟨hacc₁, hfreed₁⟩ := portInitTxPool_accounted h hpool
  refine cleans_checked hacc₁ fun _ => ?_
  rcases hqueue : setupTxQueue dpdk s₁ portid txqTx with ⟨s₂, ret₂⟩
  obtain ⟨hacc₂, hfreed₂⟩ := setupTxQueue_accounted hqueue
  have htwo := hacc₁.trans hacc₂
  refine cleans_checked htwo fun _ => ?_
  simp only
  have hctl : Accounted portid s₂ (s₂.setPort portid
      { s₂.portList portid with txCtl := txCtlInit g txqTx }) :=
    accounted_setPort s₂.dev rfl List.suffix_rfl (Balanced.refl _)
  have hfreed₃ : (s₂.setPort portid
      { s₂.portList portid with txCtl := txCtlInit g txqTx }).dev.freed = s₂.dev.freed := rfl
  generalize s₂.setPort portid _ = s₃ at hctl hfreed₃ ⊢
  rcases hprobe : setupTxQueue dpdk s₃ portid txqLatency with ⟨s₄, ret₄⟩
  obtain ⟨hacc₄, hfreed₄⟩ := setupTxQueue_accounted hprobe
  have hfour := (htwo.trans hctl).trans hacc₄
  refine cleans_checked hfour fun hret => ⟨hfour, fun hneg => ?_, fun _ => ?_⟩
  · exact absurd hneg (Int.not_lt.mpr hret)
  · show s₄.dev.freed = s.dev.freed
    rw [hfreed₄, hfreed₃, hfreed₂, hfreed₁]

/-- Nothing was called. -/
theorem Cleans.idle (h : ret < 0 → (s.portList portid).NoPool) : Cleans portid s (s, ret) :=
  ⟨Accounted.refl, h, fun _ => rfl⟩

/-- The sending job comes last. -/
theorem portInitJobs_tx_cleans (h : (s.portList portid).txMp = none) :
    Cleans portid s (portInitJobs eal dpdk g portid [.tx] s) := by
  unfold portInitJobs
  split
  · exact Cleans.idle fun hneg => absurd hneg (by decide)
  · have hone : Cleans portid s (portInitTx dpdk g s portid) := portInitTx_cleans h
    simp only
    rcases hinit : portInitTx dpdk g s portid with ⟨s₁, ret₁⟩
    rw [hinit] at hone
    simp only
    split
    next => exact hone
    next hge =>
      exact hone.after (Int.not_lt.mp hge) (Cleans.idle fun hneg => absurd hneg (by decide))

theorem portInitJobs_cleans (h : (s.portList portid).NoPool) :
    Cleans portid s (portInitJobs eal dpdk g portid Job.all s) := by
  unfold Job.all portInitJobs
  split
  · exact portInitJobs_tx_cleans h.2
  · obtain ⟨hone, htx⟩ := @portInitRx_cleans dpdk s portid h
    simp only
    rcases hinit : portInitRx dpdk s portid with ⟨s₁, ret₁⟩
    rw [hinit] at hone htx
    simp only
    split
    next => exact hone
    next hge =>
      have hret := Int.not_lt.mp hge
      exact hone.after hret (portInitJobs_tx_cleans (htx hret))

theorem portInitSingle_cleans (h : (s.portList portid).NoPool) :
    Cleans portid s (portInitSingle eal dpdk g s portid) := by
  unfold portInitSingle
  simp only
  split
  · exact Cleans.idle fun _ => h
  · exact portInitJobs_cleans h

-- ================================================================= all ports

/-- The ledger of all ports. -/
def books (s : State) : Books :=
  ⟨heldAt (portIds s.portNbMax) fun p => (s.portList p).pools, ↑s.dev.freed, s.dev.created⟩

/-- The same ports are enabled, and the pools of all balance. -/
structure Tallied (s s' : State) : Prop where
  portNbMax : s'.portNbMax = s.portNbMax
  isEnabled : ∀ p, (s'.portList p).isEnabled = (s.portList p).isEnabled
  freed : s.dev.freed <:+ s'.dev.freed
  balanced : Balanced (books s) (books s')

theorem Tallied.refl : Tallied s s :=
  ⟨rfl, fun _ => rfl, List.suffix_rfl, Balanced.refl _⟩

theorem Tallied.trans (h : Tallied s s') (h' : Tallied s' s'') : Tallied s s'' where
  portNbMax := h'.portNbMax.trans h.portNbMax
  isEnabled := fun p => (h'.isEnabled p).trans (h.isEnabled p)
  freed := h.freed.trans h'.freed
  balanced := h.balanced.trans h'.balanced

theorem Tallied.portIsEnabled_eq (h : Tallied s s') (p : UInt8) :
    portIsEnabled s' p = portIsEnabled s p := by
  unfold portIsEnabled
  rw [h.portNbMax, h.isEnabled]

theorem pairwise_portIds (portNbMax : UInt8) : (portIds portNbMax).Pairwise (· < ·) := by
  unfold portIds
  rw [List.pairwise_map]
  refine List.Pairwise.imp_of_mem ?_ List.pairwise_lt_range
  intro i j hi hj hlt
  have hsize := portNbMax.toNat_lt
  rw [List.mem_range] at hi hj
  rw [UInt8.lt_iff_toNat_lt, UInt8.toNat_ofNat', UInt8.toNat_ofNat']
  omega

/-- The books of one port are part of the books of all. -/
theorem Accounted.tallied (h : Accounted portid s s') (hp : portid < s.portNbMax) :
    Tallied s s' where
  portNbMax := h.portNbMax
  isEnabled := h.isEnabled
  freed := h.freed
  balanced := by
    unfold books
    rw [h.portNbMax]
    exact Balanced.all (f := fun p => (s.portList p).pools)
      (g := fun p => (s'.portList p).pools) h.balanced
      ((pairwise_portIds _).imp fun hlt => UInt8.ne_of_lt hlt) (mem_portIds.mpr hp)
      fun p hne => congrArg PortInfo.pools (h.others p hne)

/-- All pointers of all ports are NULL. -/
def NoPools (s : State) : Prop := ∀ p < s.portNbMax, (s.portList p).NoPool

theorem NoPools.held_eq (h : NoPools s) : (books s).held = 0 :=
  heldAt_eq_zero fun p hp => (h p (mem_portIds.mp hp)).pools_eq

theorem portFreeSingle_tallied (s : State) (portid : UInt8) :
    Tallied s (portFreeSingle s portid)
      ∧ (portFreeSingle s portid).dev.created = s.dev.created
      ∧ ∀ p, (s.portList p).NoPool ∨ p = portid ∧ portIsEnabled s p →
          ((portFreeSingle s portid).portList p).NoPool := by
  unfold portFreeSingle
  split
  next hoff =>
    refine ⟨Tallied.refl, rfl, fun p hp => ?_⟩
    rcases hp with hnone | ⟨rfl, hon⟩
    · exact hnone
    · rw [hon] at hoff
      cases hoff
  next hon =>
    have hon : portIsEnabled s portid = true := by simpa using hon
    obtain ⟨hacc, hnone, hcreated⟩ := freeMp_accounted s portid
    refine ⟨hacc.tallied (lt_of_portIsEnabled hon), hcreated, fun p hp => ?_⟩
    by_cases heq : p = portid
    · rw [heq]
      exact hnone
    · rw [hacc.others p heq]
      exact hp.resolve_right fun h => heq h.1

/-- Freeing some ports, of which the enabled ones have no pools afterwards. -/
theorem foldl_portFreeSingle (ports : List UInt8) (s : State) :
    Tallied s (ports.foldl portFreeSingle s)
      ∧ (ports.foldl portFreeSingle s).dev.created = s.dev.created
      ∧ ∀ p, (s.portList p).NoPool ∨ p ∈ ports ∧ portIsEnabled s p →
          ((ports.foldl portFreeSingle s).portList p).NoPool := by
  induction ports generalizing s with
  | nil =>
      refine ⟨Tallied.refl, rfl, fun p hp => hp.resolve_right fun h => ?_⟩
      cases h.1
  | cons q ports ih =>
      obtain ⟨hone, hcreated, hnone⟩ := portFreeSingle_tallied s q
      obtain ⟨hall, hcreated', hnone'⟩ := ih (portFreeSingle s q)
      refine ⟨hone.trans hall, hcreated'.trans hcreated, fun p hp => hnone' p ?_⟩
      rcases hp with hp | ⟨hmem, hon⟩
      · exact .inl (hnone p (.inl hp))
      · rcases List.mem_cons.mp hmem with rfl | hmem
        · exact .inl (hnone p (.inr ⟨rfl, hon⟩))
        · exact .inr ⟨hmem, (hone.portIsEnabled_eq p).trans hon⟩

/-- What the loop does: it keeps the books, without freeing a pool when it
succeeds and without leaving one when it fails; a disabled port has none. -/
structure Swept (s : State) (r : State × Int) : Prop where
  tallied : Tallied s r.1
  failed : r.2 < 0 → NoPools r.1
  kept : 0 ≤ r.2 → r.1.dev.freed = s.dev.freed
  disabled : 0 ≤ r.2 → ∀ p < s.portNbMax, portIsEnabled s p = false → (r.1.portList p).NoPool

/-- After a failure the ports below are gone through; the others had no pools. -/
theorem Cleans.failClear (h : Cleans portid s (s', ret)) (hneg : ret < 0)
    (hp : portid < s.portNbMax)
    (hrest : ∀ q < s.portNbMax, q ≠ portid →
      (s.portList q).NoPool ∨ q < portid ∧ portIsEnabled s q = true) :
    Swept s ((portIds portid).foldl portFreeSingle s', ret) := by
  have hone := h.accounted.tallied hp
  obtain ⟨hfree, -, hgone⟩ := foldl_portFreeSingle (portIds portid) s'
  refine ⟨hone.trans hfree, fun _ q hq => hgone q ?_, fun hret => ?_, fun hret => ?_⟩
  · rw [hfree.portNbMax, hone.portNbMax] at hq
    by_cases hqp : q = portid
    · rw [hqp]
      exact .inl (h.failed hneg)
    · rw [h.accounted.others q hqp, hone.portIsEnabled_eq]
      exact (hrest q hq hqp).imp_right fun hbelow => ⟨mem_portIds.mpr hbelow.1, hbelow.2⟩
  · exact absurd hneg (Int.not_lt.mpr hret)
  · exact absurd hneg (Int.not_lt.mpr hret)

/-- After a success the loop goes on. -/
theorem Cleans.next (h : Cleans portid s (s', ret)) (hret : 0 ≤ ret)
    (hp : portid < s.portNbMax) (hnext : Swept s' r) : Swept s r := by
  have hone := h.accounted.tallied hp
  refine ⟨hone.trans hnext.tallied, hnext.failed, fun hr => ?_, fun hr q hq hoff => ?_⟩
  · exact (hnext.kept hr).trans (h.kept hret)
  · exact hnext.disabled hr q (hone.portNbMax ▸ hq) ((hone.portIsEnabled_eq q).trans hoff)

/-- From any port on. The ports that are still to come have no pools, and those
before them are what the loop after `fail_clear` goes through. -/
theorem portInitLoop_swept {ports : List UInt8} (hsorted : ports.Pairwise (· < ·))
    (hbelow : ∀ q < s.portNbMax, q ∈ ports ∨ ∀ p ∈ ports, q < p)
    (hnone : ∀ q < s.portNbMax, q ∈ ports ∨ portIsEnabled s q = false →
      (s.portList q).NoPool) :
    Swept s (portInitLoop eal dpdk g ports s) := by
  induction ports generalizing s with
  | nil =>
      exact ⟨Tallied.refl, fun hneg => absurd hneg (Int.lt_irrefl 0), fun _ => rfl,
        fun _ p hp hoff => hnone p hp (.inr hoff)⟩
  | cons p ports ih =>
      obtain ⟨hfirst, hsorted⟩ := List.pairwise_cons.mp hsorted
      have hrest : ∀ q < s.portNbMax, q ∈ ports ∨ ∀ p' ∈ ports, q < p' := by
        intro q hq
        rcases hbelow q hq with hmem | hlt
        · rcases List.mem_cons.mp hmem with rfl | hmem
          · exact .inr hfirst
          · exact .inl hmem
        · exact .inr fun p' hp' => hlt p' (List.mem_cons_of_mem _ hp')
      unfold portInitLoop
      split
      next =>
        exact ih hsorted hrest fun q hq hor =>
          hnone q hq (hor.imp_left (List.mem_cons_of_mem _))
      next hon =>
        have hon : portIsEnabled s p = true := by simpa using hon
        have hp := lt_of_portIsEnabled hon
        have hclean : Cleans p s (portInitSingle eal dpdk g s p) :=
          portInitSingle_cleans (hnone p hp (.inl List.mem_cons_self))
        rcases hinit : portInitSingle eal dpdk g s p with ⟨s₁, ret₁⟩
        rw [hinit] at hclean
        simp only
        split
        next hneg =>
          refine hclean.failClear hneg hp fun q hq hqp => ?_
          rcases hbelow q hq with hmem | hlt
          · exact .inl (hnone q hq (.inl hmem))
          · cases hq' : portIsEnabled s q with
            | false => exact .inl (hnone q hq (.inr hq'))
            | true => exact .inr ⟨hlt p List.mem_cons_self, rfl⟩
        next hge =>
          have hone := hclean.accounted.tallied hp
          refine hclean.next (Int.not_lt.mp hge) hp
            (ih hsorted (by rwa [hone.portNbMax]) fun q hq hor => ?_)
          rw [hone.portNbMax] at hq
          rw [hone.portIsEnabled_eq] at hor
          have hqp : q ≠ p := by
            rintro rfl
            rcases hor with hmem | hoff
            · exact absurd (hfirst q hmem) (UInt8.lt_irrefl q)
            · rw [hon] at hoff
              cases hoff
          rw [hclean.accounted.others q hqp]
          exact hnone q hq (hor.imp_left (List.mem_cons_of_mem _))

theorem portInit_swept (h : NoPools s) : Swept s (portInit eal dpdk g s) :=
  portInitLoop_swept (pairwise_portIds _) (fun _ hq => .inl (mem_portIds.mpr hq))
    fun q hq _ => h q hq

-- ================================================================= freed once

/-- From `s` to `s'` the pools from number `lo` to below `hi` were freed, each
once, and no other. -/
def FreedOnce (s s' : State) (lo hi : ℕ) : Prop :=
  ∃ new : List Mempool, s'.dev.freed = new ++ s.dev.freed
    ∧ ∀ mp, new.count mp = if lo ≤ mp ∧ mp < hi then 1 else 0

theorem Tallied.freedOnce (h : Tallied s s') (hnone : NoPools s) (hnone' : NoPools s') :
    FreedOnce s s' s.dev.created s'.dev.created := by
  obtain ⟨new, hnew⟩ := h.freed
  refine ⟨new, hnew.symm, fun mp => ?_⟩
  have hfreed : (books s').freed = ↑new + (books s).freed := by
    rw [books, books, ← hnew, Multiset.coe_add]
  rw [← Multiset.coe_count]
  exact h.balanced.count_new hnone.held_eq hnone'.held_eq hfreed mp

/-- When nothing was created, nothing was freed. -/
theorem FreedOnce.freed_eq {n : ℕ} (h : FreedOnce s s' n n) : s'.dev.freed = s.dev.freed := by
  obtain ⟨new, hnew, hcount⟩ := h
  have hnil : new = [] := by
    apply List.eq_nil_iff_forall_not_mem.mpr
    intro mp hmem
    have hpos := List.count_pos_iff.mpr hmem
    rw [hcount mp, if_neg fun hmp => Nat.not_lt.mpr hmp.1 hmp.2] at hpos
    exact absurd hpos (Nat.lt_irrefl 0)
  rw [hnew, hnil, List.nil_append]

theorem portFree_tallied (h : ∀ p < s.portNbMax, portIsEnabled s p = false →
    (s.portList p).NoPool) :
    Tallied s (portFree s) ∧ (portFree s).dev.created = s.dev.created
      ∧ NoPools (portFree s) := by
  obtain ⟨hfree, hcreated, hgone⟩ := foldl_portFreeSingle (portIds s.portNbMax) s
  refine ⟨hfree, hcreated, fun p hp => hgone p ?_⟩
  have hp : p < s.portNbMax := hfree.portNbMax ▸ hp
  cases hon : portIsEnabled s p with
  | false => exact .inl (h p hp hon)
  | true => exact .inr ⟨mem_portIds.mpr hp, rfl⟩

/-- `port_init` from where no pointer is set, as `port_parse_opt` leaves it,
whatever DPDK answers. When it fails, it has freed every pool it created, each
once, no pointer is set, and `port_free` frees nothing; when it succeeds,
`port_free` frees every pool created, each once. -/
theorem portInit_frees (hnone : NoPools s) (h : portInit eal dpdk g s = (s', ret)) :
    (ret < 0 → FreedOnce s s' s.dev.created s'.dev.created ∧ NoPools s'
      ∧ (portFree s').dev.freed = s'.dev.freed)
    ∧ (0 ≤ ret → FreedOnce s' (portFree s') s.dev.created s'.dev.created) := by
  have hswept : Swept s (portInit eal dpdk g s) := portInit_swept hnone
  rw [h] at hswept
  have hinit : Tallied s s' := hswept.tallied
  refine ⟨fun hneg => ?_, fun hret => ?_⟩
  · have hnone' : NoPools s' := hswept.failed hneg
    obtain ⟨hfree, hcreated, hnone''⟩ := portFree_tallied fun p hp _ => hnone' p hp
    have hsame := hfree.freedOnce hnone' hnone''
    rw [hcreated] at hsame
    exact ⟨hinit.freedOnce hnone hnone', hnone', hsame.freed_eq⟩
  · obtain ⟨hfree, hcreated, hnone''⟩ := portFree_tallied (s := s') fun p hp hoff =>
      hswept.disabled hret p (hinit.portNbMax ▸ hp) ((hinit.portIsEnabled_eq p) ▸ hoff)
    obtain ⟨new, hnew, hcount⟩ := (hinit.trans hfree).freedOnce hnone hnone''
    rw [hcreated] at hcount
    refine ⟨new, ?_, hcount⟩
    rw [hnew, show s'.dev.freed = s.dev.freed from hswept.kept hret]

theorem NoPools.portUpdateLcore {lcoreid : UInt8} {job : Job} (hnone : NoPools s)
    (h : portUpdateLcore s portid lcoreid job = some s') : NoPools s' := by
  unfold Port.portUpdateLcore at h
  split at h
  next => cases h
  next hlt =>
    cases h
    intro p hp
    have hport := hnone portid (UInt8.not_le.mp hlt)
    show (Function.update s.portList portid _ p).NoPool
    by_cases heq : p = portid
    · rw [heq, Function.update_self]
      exact ⟨hport.1, hport.2⟩
    · rw [Function.update_of_ne heq]
      exact hnone p hp

def fourLcores : Eal := ⟨4, fun lcore => lcore < 4, fun _ => of_decide_eq_true⟩

/-- Two ports with both jobs. -/
def twoPorts : State :=
  { portNbMax := 2
    portList := fun p => { PortInfo.zero with id := p, isEnabled := true, lcoreMap := fun _ => 1 }
    dev := .start }

/-- The last queue of the second port cannot be set up. -/
def lastQueueFails : Dpdk :=
  { maxTxQueues := fun _ => 2
    rteEthDevConfigure := fun _ => 0
    rtePktmbufPoolCreate := fun _ _ => true
    rteEthRxQueueSetup := fun _ _ => 0
    rteEthTxQueueSetup := fun portid queueid =>
      if portid = 1 ∧ queueid = txqLatency then -5 else 0
    rteEthDevStart := fun _ => 0 }

/-- Four pools are created and freed. -/
theorem portInit_frees_four :
    ∃ s', portInit fourLcores lastQueueFails ⟨1000, 10⟩ twoPorts = (s', errDpdk)
      ∧ FreedOnce twoPorts s' 0 4 ∧ NoPools s' ∧ (portFree s').dev.freed = s'.dev.freed := by
  obtain ⟨s', hrun, hcreated⟩ :
      ∃ s', portInit fourLcores lastQueueFails ⟨1000, 10⟩ twoPorts = (s', errDpdk)
        ∧ s'.dev.created = 4 :=
    ⟨(portInit fourLcores lastQueueFails ⟨1000, 10⟩ twoPorts).1,
      Prod.ext rfl (by decide), by decide⟩
  have hnone : NoPools twoPorts := fun _ _ => ⟨rfl, rfl⟩
  obtain ⟨hfreed, hgone, hagain⟩ := (portInit_frees hnone hrun).1 (by decide)
  rw [hcreated] at hfreed
  exact ⟨s', hrun, hfreed, hgone, hagain⟩

end PktSender.Port
