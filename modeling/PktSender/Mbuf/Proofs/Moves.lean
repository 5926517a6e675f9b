/-
Steps move mbufs and make none.

An mbuf is where its pool says, at every step and also when it was freed too
often: in its own pool, at the driver, or with the thread that allocates from
that pool (`InPlace.step`). So no two threads ever hold the same mbuf, and
every mbuf is one its pool was created with.
-/
import PktSender.Mbuf.Basic
import Mathlib.Data.List.Nodup

namespace PktSender.Mbuf

-- =============================================================== the places

section Places

variable {cfg : Cfg}

/-- An mbuf its pool was created with. -/
def Created (cfg : Cfg) (m : MbufId) : Prop := m.idx < cfg.poolSize m.pool

/-- One of this pool. -/
def FromPool (cfg : Cfg) (mp : Pool) (m : MbufId) : Prop := m.pool = mp ∧ Created cfg m

/-- At the start a pool holds what it was created with, -/
theorem mem_pool_start {mp : Pool} {m : MbufId} :
    m ∈ (start cfg).dpdk.pool mp ↔ FromPool cfg mp m := by
  constructor
  · intro hm
    obtain ⟨idx, hidx, rfl⟩ := List.mem_map.mp hm
    exact ⟨rfl, List.mem_range.mp hidx⟩
  · rintro ⟨rfl, hcreated⟩
    exact List.mem_map.mpr ⟨m.idx, List.mem_range.mpr hcreated, rfl⟩

/-- each mbuf once. -/
theorem nodup_pool_start (mp : Pool) : ((start cfg).dpdk.pool mp).Nodup :=
  List.Nodup.map (fun _ _ heq => congrArg MbufId.idx heq) List.nodup_range

/-- What a call of `tx_ctl_tx_burst` holds. -/
def TxPc.held : TxPc → List MbufId
  | .idle => []
  | .sending accepted pkts => accepted ++ pkts
  | .freeing mList => mList

/-- After a round of `__send_burst`. -/
theorem held_sent (accepted pkts : List MbufId) :
    (if pkts = [] then TxPc.freeing accepted else .sending accepted pkts).held
      = accepted ++ pkts := by
  split
  next hnil =>
    rw [hnil, List.append_nil]
    rfl
  next => rfl

/-- After a round of `rte_pktmbuf_free_bulk`. -/
theorem held_freed (mList : List MbufId) :
    (if mList = [] then TxPc.idle else .freeing mList).held = mList := by
  split
  next hnil => exact hnil.symm
  next => rfl

/-- The pools and the driver. -/
structure DpdkInPlace (cfg : Cfg) (d : Dpdk) : Prop where
  pool : ∀ mp, ∀ m ∈ d.pool mp, FromPool cfg mp m
  driver : ∀ m ∈ d.driver, Created cfg m

/-- The threads as well. -/
structure InPlace (cfg : Cfg) (s : State) : Prop where
  dpdk : DpdkInPlace cfg s.dpdk
  tx : ∀ portid, ∀ m ∈ (s.tx portid).held, FromPool cfg (.tx portid) m
  nextPkt : ∀ i m, s.nextPkt i = some m → FromPool cfg .probe m

/-- At the start the driver and the threads hold nothing. -/
theorem InPlace.start (cfg : Cfg) : InPlace cfg (start cfg) := by
  refine ⟨⟨fun mp m hm => mem_pool_start.mp hm, List.forall_mem_nil _⟩,
    fun _ => List.forall_mem_nil _, fun _ _ hm => ?_⟩
  cases hm

end Places

-- ================================================================= the calls

section Dpdk

variable {cfg : Cfg} {d d' : Dpdk} {m : MbufId} {mp : Pool} {ms : List MbufId}

namespace DpdkInPlace

/-- What is allocated is of the pool that was asked. -/
theorem alloc (h : DpdkInPlace cfg d) (ha : rtePktmbufAlloc d mp m = some d') :
    FromPool cfg mp m ∧ DpdkInPlace cfg d' := by
  unfold rtePktmbufAlloc at ha
  split at ha
  next => cases ha
  next hmem =>
    split at ha
    next => cases ha
    next =>
      cases ha
      refine ⟨h.pool mp m (not_not.mp hmem), fun mp' x hx => ?_, h.driver⟩
      by_cases hmp : mp' = mp
      · subst hmp
        simp only [Function.update_self] at hx
        exact h.pool mp' x (List.mem_of_mem_erase hx)
      · simp only [Function.update_of_ne hmp] at hx
        exact h.pool mp' x hx

/-- So is each of a bulk, by induction on the list. -/
theorem allocBulk (h : DpdkInPlace cfg d) (ha : pktmbufAllocBulk d mp ms = some d') :
    (∀ m ∈ ms, FromPool cfg mp m) ∧ DpdkInPlace cfg d' := by
  unfold pktmbufAllocBulk at ha
  induction ms generalizing d with
  | nil =>
      cases ha
      exact ⟨List.forall_mem_nil _, h⟩
  | cons x ms ih =>
      rw [List.foldlM_cons] at ha
      obtain ⟨d₁, ha₁, ha⟩ := Option.bind_eq_some_iff.mp ha
      obtain ⟨hx, h₁⟩ := h.alloc ha₁
      obtain ⟨hms, h'⟩ := ih h₁ ha
      exact ⟨List.forall_mem_cons.mpr ⟨hx, hms⟩, h'⟩

/-- A freed mbuf goes to the pool it came from, and to no other. -/
theorem free (h : DpdkInPlace cfg d) (hm : Created cfg m) :
    DpdkInPlace cfg (rtePktmbufFree d m) := by
  refine ⟨fun mp x hx => ?_, h.driver⟩
  unfold rtePktmbufFree at hx
  simp only at hx
  split at hx
  next =>
    by_cases hmp : mp = m.pool
    · subst hmp
      simp only [Function.update_self] at hx
      rcases List.mem_cons.mp hx with rfl | hx
      · exact ⟨rfl, hm⟩
      · exact h.pool _ x hx
    · simp only [Function.update_of_ne hmp] at hx
      exact h.pool mp x hx
  next => exact h.pool mp x hx

/-- What a burst accepts is at the driver, -/
theorem txBurst (h : DpdkInPlace cfg d) (hms : ∀ m ∈ ms, FromPool cfg mp m) :
    DpdkInPlace cfg (rteEthTxBurst d ms) :=
  ⟨h.pool, List.forall_mem_append.mpr ⟨h.driver, fun m hm => (hms m hm).2⟩⟩

/-- which gives it back to its pool. -/
theorem complete (h : DpdkInPlace cfg d) (hd : driverComplete d m = some d') :
    DpdkInPlace cfg d' := by
  unfold driverComplete at hd
  split at hd
  next hmem =>
    cases hd
    have herase : DpdkInPlace cfg { d with driver := d.driver.erase m } :=
      ⟨h.pool, fun x hx => h.driver x (List.mem_of_mem_erase hx)⟩
    exact herase.free (h.driver m hmem)
  next => cases hd

end DpdkInPlace

end Dpdk

-- ================================================================= the steps

section Steps

variable {cfg : Cfg} {s s' : State} {d : Dpdk} {portid : UInt8}

namespace InPlace

/-- A sender goes on. -/
theorem setTx (h : InPlace cfg s) (hd : DpdkInPlace cfg d) {pc : TxPc}
    (hpc : ∀ m ∈ pc.held, FromPool cfg (.tx portid) m) :
    InPlace cfg (({ s with dpdk := d } : State).setTx portid pc) := by
  refine ⟨hd, fun p m hm => ?_, h.nextPkt⟩
  unfold State.setTx at hm
  simp only at hm
  by_cases hp : p = portid
  · subst hp
    rw [Function.update_self] at hm
    exact hpc m hm
  · rw [Function.update_of_ne hp] at hm
    exact h.tx p m hm

/-- A call allocates from the pool of its own port. -/
theorem txCtlTxBurst {due : Bool} {got : Option (List MbufId)} (h : InPlace cfg s)
    (hs : txCtlTxBurst s portid due got = some s') : InPlace cfg s' := by
  unfold Mbuf.txCtlTxBurst at hs
  split at hs
  next => cases hs
  split at hs
  next =>
    cases hs
    exact h
  split at hs
  next =>
    cases hs
    exact h
  next ms =>
    split at hs
    next => cases hs
    obtain ⟨d, ha, rfl⟩ := Option.map_eq_some_iff.mp hs
    obtain ⟨hms, hd⟩ := h.dpdk.allocBulk ha
    exact h.setTx hd hms

/-- What the burst takes is at the driver, and the rest is still held. -/
theorem sendBurst {ret : ℕ} (h : InPlace cfg s) (hs : sendBurst s portid ret = some s') :
    InPlace cfg s' := by
  unfold Mbuf.sendBurst at hs
  split at hs
  next accepted pkts hpc =>
    have hheld := h.tx portid
    rw [hpc] at hheld
    split at hs
    next => cases hs
    simp only at hs
    cases hs
    have htake : ∀ m ∈ pkts.take ret, FromPool cfg (.tx portid) m := fun m hm =>
      hheld m (List.mem_append_right _ (List.mem_of_mem_take hm))
    refine h.setTx (h.dpdk.txBurst htake) fun m hm => ?_
    rw [held_sent, List.append_assoc, List.take_append_drop] at hm
    exact hheld m hm
  next => cases hs

theorem freeBulk (h : InPlace cfg s) (hs : freeBulk s portid = some s') : InPlace cfg s' := by
  unfold Mbuf.freeBulk at hs
  split at hs
  next m mList hpc =>
    have hheld := h.tx portid
    rw [hpc] at hheld
    obtain ⟨hm, hlist⟩ := List.forall_mem_cons.mp hheld
    simp only at hs
    cases hs
    refine h.setTx (h.dpdk.free hm.2) fun x hx => ?_
    rw [held_freed] at hx
    exact hlist x hx
  next => cases hs

/-- The callback goes on. -/
theorem setProbe (h : InPlace cfg s) (hd : DpdkInPlace cfg d) {nextPkt : UInt8 → Option MbufId}
    (hnext : ∀ i m, nextPkt i = some m → FromPool cfg .probe m) {pc : ProbePc} :
    InPlace cfg { s with dpdk := d, nextPkt := nextPkt, probe := pc } :=
  ⟨hd, h.tx, hnext⟩

/-- The callback allocates from `probe_mp`. -/
theorem probeNext {got : Option MbufId} (h : InPlace cfg s)
    (hs : probeNext cfg s got = some s') : InPlace cfg s' := by
  unfold Mbuf.probeNext at hs
  split at hs
  next i hpc =>
    split at hs
    next =>
      cases hs
      exact h.setProbe h.dpdk h.nextPkt
    split at hs
    next =>
      cases hs
      exact h.setProbe h.dpdk h.nextPkt
    split at hs
    next =>
      split at hs
      next =>
        cases hs
        exact h.setProbe h.dpdk h.nextPkt
      next m =>
        obtain ⟨d, ha, rfl⟩ := Option.map_eq_some_iff.mp hs
        obtain ⟨hm, hd⟩ := h.dpdk.alloc ha
        refine h.setProbe hd fun j x hx => ?_
        by_cases hj : j = i
        · subst hj
          rw [Function.update_self] at hx
          cases hx
          exact hm
        · rw [Function.update_of_ne hj] at hx
          exact h.nextPkt j x hx
    next =>
      cases hs
      exact h.setProbe h.dpdk h.nextPkt
  next => cases hs

theorem probeSend {ret : ℕ} (h : InPlace cfg s) (hs : probeSend s ret = some s') :
    InPlace cfg s' := by
  unfold Mbuf.probeSend at hs
  split at hs
  next i hpc =>
    split at hs
    next => cases hs
    split at hs
    next =>
      cases hs
      exact h.setProbe h.dpdk h.nextPkt
    next =>
      obtain ⟨m, hm, rfl⟩ := Option.map_eq_some_iff.mp hs
      exact h.setProbe (h.dpdk.txBurst (List.forall_mem_singleton.mpr (h.nextPkt i m hm)))
        h.nextPkt
  next => cases hs

theorem probeFree (h : InPlace cfg s) (hs : probeFree s = some s') : InPlace cfg s' := by
  unfold Mbuf.probeFree at hs
  split at hs
  next i hpc =>
    obtain ⟨m, hm, rfl⟩ := Option.map_eq_some_iff.mp hs
    refine h.setProbe (h.dpdk.free (h.nextPkt i m hm).2) fun j x hx => ?_
    by_cases hj : j = i
    · subst hj
      rw [Function.update_self] at hx
      cases hx
    · rw [Function.update_of_ne hj] at hx
      exact h.nextPkt j x hx
  next => cases hs

/-- A step makes no mbufs. -/
theorem step {a : Act} (h : InPlace cfg s) (hs : step cfg s a = some s') : InPlace cfg s' := by
  cases a with
  | txBurst portid due got => exact h.txCtlTxBurst hs
  | txSend portid ret => exact h.sendBurst hs
  | txFree portid => exact h.freeBulk hs
  | probeFire running =>
      simp only [Mbuf.step] at hs
      split at hs
      next => cases hs
      cases hs
      split
      · exact h.setProbe h.dpdk h.nextPkt
      · exact h
  | probeNext got => exact h.probeNext hs
  | probeSend ret => exact h.probeSend hs
  | probeFree => exact h.probeFree hs
  | complete m =>
      obtain ⟨d, hd, rfl⟩ := Option.map_eq_some_iff.mp hs
      exact ⟨h.dpdk.complete hd, h.tx, h.nextPkt⟩

end InPlace

end Steps

end PktSender.Mbuf
