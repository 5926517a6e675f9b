/-
Every packet the senders free has been handed over before.

As long as neither sender has freed anything, each mbuf has one owner: its
pool, the thread that allocated it, or the driver (`Owned`), and what a
thread has had accepted belongs to the driver or is back in its pool
(`Gone`). That keeps the counts right (`Owned.safe`). But the only packets
the senders free are those, so the first call of `rte_pktmbuf_free` by either
of them either puts a packet into its pool that the driver still holds, or
releases it a second time (`Owned.free_unsafe`). Hence a run is safe exactly
when it contains no such call.
-/
import PktSender.Mbuf.Basic
import PktSender.Lib.Lts
import Mathlib.Data.List.Nodup

namespace PktSender.Mbuf

-- ============================================================== the property

/-- No mbuf was released more often than acquired, none is in its pool while
the driver holds it, and none is in a pool twice. -/
structure Safe (d : Dpdk) : Prop where
  released : ∀ m, d.released m ≤ d.acquired m
  driver : ∀ m ∈ d.driver, m ∉ d.pool m.pool
  pool : ∀ mp, (d.pool mp).Nodup

/-- The steps in which a sender frees a packet. -/
def Act.Frees : Act → Prop
  | .txFree _ => True
  | .probeFree => True
  | _ => False

instance : DecidablePred Act.Frees
  | .txFree _ => .isTrue trivial
  | .probeFree => .isTrue trivial
  | .txBurst _ _ _ => .isFalse id
  | .txSend _ _ => .isFalse id
  | .probeFire _ => .isFalse id
  | .probeNext _ => .isFalse id
  | .probeSend _ => .isFalse id
  | .complete _ => .isFalse id

-- ================================================================ the owners

/-- Who holds the reference of an mbuf. -/
inductive Owner where
  | free
  | tx (portid : UInt8)
  | probe (portid : UInt8)
  | driver
deriving DecidableEq

/-- Some mbufs change their owner. -/
def assign (own : MbufId → Owner) (ms : List MbufId) (o : Owner) : MbufId → Owner :=
  fun m => if m ∈ ms then o else own m

/-- The mbuf was handed over: the driver has it, or it is back. -/
def Gone (own : MbufId → Owner) (m : MbufId) : Prop :=
  own m = .driver ∨ own m = .free

section Assign

variable {own : MbufId → Owner} {ms : List MbufId} {o : Owner} {m : MbufId}

theorem assign_of_mem (h : m ∈ ms) : assign own ms o m = o := if_pos h

theorem assign_of_not_mem (h : m ∉ ms) : assign own ms o m = own m := if_neg h

theorem assign_self : assign own [m] o m = o :=
  assign_of_mem (List.mem_singleton.mpr rfl)

theorem assign_ne {x : MbufId} (h : x ≠ m) : assign own [m] o x = own x :=
  assign_of_not_mem fun hx => h (List.mem_singleton.mp hx)

theorem assign_cons (x : MbufId) (ms : List MbufId) :
    assign (assign own [x] o) ms o = assign own (x :: ms) o := by
  funext m
  by_cases hm : m ∈ ms
  · rw [assign_of_mem hm, assign_of_mem (List.mem_cons_of_mem x hm)]
  · rw [assign_of_not_mem hm]
    by_cases hx : m = x
    · rw [hx, assign_self, assign_of_mem List.mem_cons_self]
    · rw [assign_ne hx, assign_of_not_mem fun h => (List.mem_cons.mp h).elim hx hm]

/-- What was handed over stays so when it is handed over again. -/
theorem Gone.assign (h : Gone own m) (ho : o = .driver ∨ o = .free) :
    Gone (assign own ms o) m := by
  unfold Gone
  by_cases hm : m ∈ ms
  · rw [assign_of_mem hm]
    exact ho
  · rw [assign_of_not_mem hm]
    exact h

end Assign

/-- The reference counts, the pools and the driver agree with the owners. -/
structure Owned (own : MbufId → Owner) (d : Dpdk) : Prop where
  pool : ∀ mp m, m ∈ d.pool mp → m.pool = mp ∧ own m = .free
  nodup : ∀ mp, (d.pool mp).Nodup
  driver : ∀ m, m ∈ d.driver ↔ own m = .driver
  once : d.driver.Nodup
  refcnt : ∀ m, d.refcnt m = if own m = .free then 0 else 1
  count : ∀ m, d.acquired m = d.released m + if own m = .free then 0 else 1

namespace Owned

variable {own : MbufId → Owner} {d d' : Dpdk} {m : MbufId} {mp : Pool}

theorem safe (h : Owned own d) : Safe d := by
  refine ⟨fun m => ?_, fun m hm hpool => ?_, h.nodup⟩
  · rw [h.count m]
    exact Nat.le_add_right _ _
  · have howner := (h.driver m).mp hm
    rw [(h.pool _ m hpool).2] at howner
    cases howner

/-- The count of one mbuf is set with its owner. -/
theorem refcnt_assign (h : Owned own d) {o : Owner} {n : UInt16}
    (hn : n = if o = .free then 0 else 1) (x : MbufId) :
    Function.update d.refcnt m n x = if assign own [m] o x = .free then 0 else 1 := by
  by_cases hx : x = m
  · subst hx
    rw [assign_self, Function.update_self, hn]
  · rw [assign_ne hx, Function.update_of_ne hx, h.refcnt x]

/-- An allocation gives a free mbuf of the pool to a thread. -/
theorem alloc (h : Owned own d) (ha : rtePktmbufAlloc d mp m = some d') {o : Owner}
    (ho : o ≠ .free ∧ o ≠ .driver) :
    m.pool = mp ∧ own m = .free ∧ Owned (assign own [m] o) d' := by
  unfold rtePktmbufAlloc at ha
  split at ha
  next => cases ha
  next hmem =>
    have hmem := not_not.mp hmem
    split at ha
    next => cases ha
    next =>
      cases ha
      obtain ⟨hpool, hfree⟩ := h.pool mp m hmem
      refine ⟨hpool, hfree, fun mp' x hx => ?_, fun mp' => ?_, fun x => ?_, h.once,
        h.refcnt_assign (if_neg ho.1).symm, fun x => ?_⟩
      · -- what is left in the pool is other mbufs
        have hx' : x ∈ d.pool mp' ∧ x ≠ m := by
          by_cases hmp : mp' = mp
          · subst hmp
            simp only [Function.update_self] at hx
            exact ⟨List.mem_of_mem_erase hx,
              fun he => (h.nodup mp').not_mem_erase (he ▸ hx)⟩
          · simp only [Function.update_of_ne hmp] at hx
            exact ⟨hx, fun he => hmp ((h.pool mp' x hx).1.symm.trans (he ▸ hpool))⟩
        rw [assign_ne hx'.2]
        exact h.pool mp' x hx'.1
      · by_cases hmp : mp' = mp
        · subst hmp
          simp only [Function.update_self]
          exact (h.nodup mp').erase m
        · simp only [Function.update_of_ne hmp]
          exact h.nodup mp'
      · by_cases hx : x = m
        · subst hx
          rw [assign_self, h.driver x, hfree]
          exact iff_of_false nofun ho.2
        · rw [assign_ne hx]
          exact h.driver x
      · by_cases hx : x = m
        · subst hx
          have hcount := h.count x
          rw [hfree, if_pos rfl] at hcount
          rw [assign_self, if_neg ho.1]
          simp only [Function.update_self]
          omega
        · rw [assign_ne hx, ← h.count x]
          exact Function.update_of_ne hx ..

/-- So does a bulk allocation, each time another one. -/
theorem allocBulk {ms : List MbufId} (h : Owned own d)
    (ha : pktmbufAllocBulk d mp ms = some d') {o : Owner}
    (ho : o ≠ .free ∧ o ≠ .driver) :
    ms.Nodup ∧ (∀ m ∈ ms, m.pool = mp ∧ own m = .free)
      ∧ Owned (assign own ms o) d' := by
  unfold pktmbufAllocBulk at ha
  induction ms generalizing own d with
  | nil =>
      cases ha
      exact ⟨List.nodup_nil, nofun, h⟩
  | cons x ms ih =>
      rw [List.foldlM_cons] at ha
      obtain ⟨d₁, ha₁, ha⟩ := Option.bind_eq_some_iff.mp ha
      obtain ⟨hpool, hfree, h₁⟩ := h.alloc ha₁ ho
      obtain ⟨hnodup, hall, h'⟩ := ih h₁ ha
      have hx : ∀ m ∈ ms, m ≠ x := by
        intro m hm heq
        subst heq
        have hm' := (hall m hm).2
        rw [assign_self] at hm'
        exact ho.1 hm'
      refine ⟨List.nodup_cons.mpr ⟨fun hmem => hx x hmem rfl, hnodup⟩, ?_, ?_⟩
      · intro m hm
        rcases List.mem_cons.mp hm with rfl | hm
        · exact ⟨hpool, hfree⟩
        · have hm' := hall m hm
          rwa [assign_ne (hx m hm)] at hm'
      · rw [← assign_cons]
        exact h'

/-- Accepted packets go from a thread to the driver. -/
theorem accept {ms : List MbufId} (h : Owned own d) (hnodup : ms.Nodup)
    (hms : ∀ m ∈ ms, own m ≠ .free ∧ own m ≠ .driver) :
    Owned (assign own ms .driver) (rteEthTxBurst d ms) := by
  have hfree : ∀ x, assign own ms .driver x = .free ↔ own x = .free := by
    intro x
    by_cases hx : x ∈ ms
    · rw [assign_of_mem hx]
      exact iff_of_false nofun (hms x hx).1
    · rw [assign_of_not_mem hx]
  refine ⟨fun mp x hx => ?_, h.nodup, fun x => ?_, ?_, fun x => ?_, fun x => ?_⟩
  · obtain ⟨hpool, hown⟩ := h.pool mp x hx
    exact ⟨hpool, (hfree x).mpr hown⟩
  · show x ∈ d.driver ++ ms ↔ _
    rw [List.mem_append]
    by_cases hx : x ∈ ms
    · rw [assign_of_mem hx]
      exact iff_of_true (.inr hx) rfl
    · rw [assign_of_not_mem hx, h.driver x]
      exact or_iff_left hx
  · refine List.nodup_append.mpr ⟨h.once, hnodup, fun x hx y hy he => ?_⟩
    exact (hms y hy).2 (he ▸ (h.driver x).mp hx)
  · rw [show (rteEthTxBurst d ms).refcnt x = d.refcnt x from rfl, h.refcnt x]
    exact if_congr (hfree x).symm rfl rfl
  · rw [show (rteEthTxBurst d ms).acquired x = d.acquired x from rfl, h.count x]
    exact congrArg _ (if_congr (hfree x).symm rfl rfl)

/-- The driver releases what it holds, and the packet is back. -/
theorem complete (h : Owned own d) (hd : driverComplete d m = some d') :
    own m = .driver ∧ Owned (assign own [m] .free) d' := by
  unfold driverComplete at hd
  split at hd
  next hmem =>
    cases hd
    have hown := (h.driver m).mp hmem
    have hzero : d.refcnt m - 1 = 0 := by
      rw [h.refcnt m, hown, if_neg nofun]
      rfl
    have hpool : ∀ mp, m ∉ d.pool mp := by
      intro mp hin
      have hfree := (h.pool mp m hin).2
      rw [hown] at hfree
      cases hfree
    unfold rtePktmbufFree
    simp only [hzero, if_true]
    refine ⟨hown, fun mp' x hx => ?_, fun mp' => ?_, fun x => ?_, h.once.erase m,
      h.refcnt_assign (if_pos rfl).symm, fun x => ?_⟩
    · by_cases hmp : mp' = m.pool
      · subst hmp
        simp only [Function.update_self] at hx
        rcases List.mem_cons.mp hx with rfl | hx
        · exact ⟨rfl, assign_self⟩
        · have hne : x ≠ m := fun he => hpool _ (he ▸ hx)
          rw [assign_ne hne]
          exact h.pool _ x hx
      · simp only [Function.update_of_ne hmp] at hx
        have hne : x ≠ m := fun he => hpool _ (he ▸ hx)
        rw [assign_ne hne]
        exact h.pool mp' x hx
    · by_cases hmp : mp' = m.pool
      · subst hmp
        simp only [Function.update_self]
        exact List.nodup_cons.mpr ⟨hpool _, h.nodup _⟩
      · simp only [Function.update_of_ne hmp]
        exact h.nodup mp'
    · by_cases hx : x = m
      · subst hx
        rw [assign_self]
        exact iff_of_false h.once.not_mem_erase nofun
      · rw [assign_ne hx, ← h.driver x]
        exact List.mem_erase_of_ne hx
    · by_cases hx : x = m
      · subst hx
        have hcount := h.count x
        rw [hown, if_neg nofun] at hcount
        rw [assign_self, if_pos rfl]
        simp only [Function.update_self]
        exact hcount
      · rw [assign_ne hx]
        simp only [Function.update_of_ne hx]
        exact h.count x
  next => cases hd

/-- Freeing what was handed over breaks the property. -/
theorem free_unsafe (h : Owned own d) (hgone : Gone own m) :
    ¬ Safe (rtePktmbufFree d m) := by
  intro hsafe
  rcases hgone with hown | hown
  · -- the driver holds it, and it is put into its pool
    have hzero : d.refcnt m - 1 = 0 := by
      rw [h.refcnt m, hown, if_neg nofun]
      rfl
    apply hsafe.driver m ((h.driver m).mpr hown)
    unfold rtePktmbufFree
    simp only [hzero, if_true, Function.update_self]
    exact List.mem_cons_self
  · -- it has no reference any more
    have hcount := h.count m
    rw [hown, if_pos rfl] at hcount
    have hle := hsafe.released m
    unfold rtePktmbufFree at hle
    simp only [Function.update_self] at hle
    omega

end Owned

-- =============================================================== the threads

/-- What a call of `tx_ctl_tx_burst` holds: the packets still to be offered
are its own, those accepted were handed over. -/
def TxOk (own : MbufId → Owner) (portid : UInt8) : TxPc → Prop
  | .idle => True
  | .sending accepted pkts =>
      pkts.Nodup ∧ (∀ m ∈ pkts, m.pool = .tx portid ∧ own m = .tx portid)
        ∧ ∀ m ∈ accepted, m.pool = .tx portid ∧ Gone own m
  | .freeing mList => ∀ m ∈ mList, m.pool = .tx portid ∧ Gone own m

/-- What the timer callback holds: a pending frame is its own until it is
accepted. -/
def ProbeOk (own : MbufId → Owner) (pc : ProbePc) (nextPkt : UInt8 → Option MbufId) : Prop :=
  ∀ i m, nextPkt i = some m →
    m.pool = .probe ∧ if pc = .free i then Gone own m else own m = .probe i

section Threads

variable {own : MbufId → Owner} {ms : List MbufId} {o : Owner} {portid : UInt8}
  {pc pc' : ProbePc} {nextPkt : UInt8 → Option MbufId}

/-- A change of owners leaves a gone mbuf gone if it hands mbufs over, or if
it is about another pool. -/
theorem Gone.assign_of_pool {m : MbufId} {mp : Pool} (h : Gone own m) (hm : m.pool = mp)
    (ho : (o = .driver ∨ o = .free) ∨ ∀ x ∈ ms, x.pool ≠ mp) :
    Gone (Mbuf.assign own ms o) m := by
  rcases ho with ho | hpool
  · exact h.assign ho
  · unfold Gone
    rw [assign_of_not_mem fun hmem => hpool m hmem hm]
    exact h

theorem TxOk.assign {pc : TxPc} (h : TxOk own portid pc)
    (hown : ∀ m ∈ ms, own m ≠ .tx portid)
    (ho : (o = .driver ∨ o = .free) ∨ ∀ m ∈ ms, m.pool ≠ .tx portid) :
    TxOk (Mbuf.assign own ms o) portid pc := by
  cases pc with
  | idle => trivial
  | sending accepted pkts =>
      obtain ⟨hnodup, hpkts, hacc⟩ := h
      refine ⟨hnodup, fun m hm => ?_, fun m hm => ?_⟩
      · obtain ⟨hpool, howner⟩ := hpkts m hm
        rw [assign_of_not_mem fun hmem => hown m hmem howner]
        exact ⟨hpool, howner⟩
      · obtain ⟨hpool, hgone⟩ := hacc m hm
        exact ⟨hpool, hgone.assign_of_pool hpool ho⟩
  | freeing mList =>
      intro m hm
      obtain ⟨hpool, hgone⟩ := h m hm
      exact ⟨hpool, hgone.assign_of_pool hpool ho⟩

theorem ProbeOk.assign (h : ProbeOk own pc nextPkt)
    (hown : ∀ m ∈ ms, ∀ i, own m ≠ .probe i)
    (ho : (o = .driver ∨ o = .free) ∨ ∀ m ∈ ms, m.pool ≠ .probe) :
    ProbeOk (Mbuf.assign own ms o) pc nextPkt := by
  intro i m hm
  obtain ⟨hpool, howner⟩ := h i m hm
  refine ⟨hpool, ?_⟩
  by_cases hpc : pc = .free i
  · rw [if_pos hpc] at howner ⊢
    exact howner.assign_of_pool hpool ho
  · rw [if_neg hpc] at howner ⊢
    rw [assign_of_not_mem fun hmem => hown m hmem i howner]
    exact howner

/-- Elsewhere in the callback the pending frames are its own. -/
theorem ProbeOk.move (h : ProbeOk own pc nextPkt) (hpc : ∀ i, pc ≠ .free i)
    (hpc' : ∀ i, pc' ≠ .free i) : ProbeOk own pc' nextPkt := by
  intro i m hm
  obtain ⟨hpool, howner⟩ := h i m hm
  rw [if_neg (hpc i)] at howner
  rw [if_neg (hpc' i)]
  exact ⟨hpool, howner⟩

end Threads

-- ============================================================= the invariant

/-- The owners, the contract's state and the threads agree. -/
structure OwnInv (own : MbufId → Owner) (s : State) : Prop where
  owned : Owned own s.dpdk
  tx : ∀ portid, TxOk own portid (s.tx portid)
  probe : ProbeOk own s.probe s.nextPkt

namespace OwnInv

variable {cfg : Cfg} {own : MbufId → Owner} {s s' : State} {portid : UInt8}

/-- In the beginning everything is free. -/
theorem start (cfg : Cfg) : OwnInv (fun _ => .free) (start cfg) := by
  refine ⟨⟨fun mp m hm => ?_, fun mp => ?_, fun m => ?_, List.nodup_nil, fun m => rfl,
    fun m => rfl⟩, fun _ => trivial, nofun⟩
  · obtain ⟨idx, -, rfl⟩ := List.mem_map.mp hm
    exact ⟨rfl, rfl⟩
  · refine List.Nodup.map (fun i j hij => ?_) List.nodup_range
    exact congrArg MbufId.idx hij
  · exact iff_of_false List.not_mem_nil nofun

/-- The thread of a port takes a burst of mbufs from its pool. -/
theorem txBurst {due : Bool} {got : Option (List MbufId)} (h : OwnInv own s)
    (hs : txCtlTxBurst s portid due got = some s') : ∃ own', OwnInv own' s' := by
  unfold txCtlTxBurst at hs
  split at hs
  next => cases hs
  split at hs
  next => exact ⟨own, Option.some.inj hs ▸ h⟩
  cases got with
  | none => exact ⟨own, Option.some.inj hs ▸ h⟩
  | some mbufs =>
      simp only at hs
      split at hs
      next => cases hs
      obtain ⟨d, ha, rfl⟩ := Option.map_eq_some_iff.mp hs
      obtain ⟨hnodup, hms, howned⟩ :=
        h.owned.allocBulk ha (o := .tx portid) ⟨nofun, nofun⟩
      refine ⟨assign own mbufs (.tx portid), howned, fun q => ?_, ?_⟩
      · by_cases hq : q = portid
        · subst hq
          simp only [State.setTx, Function.update_self]
          exact ⟨hnodup, fun m hm => ⟨(hms m hm).1, assign_of_mem hm⟩, nofun⟩
        · simp only [State.setTx, Function.update_of_ne hq]
          refine (h.tx q).assign (fun m hm => ?_) (.inr fun m hm => ?_)
          · rw [(hms m hm).2]
            nofun
          · rw [(hms m hm).1]
            exact fun he => hq (Pool.tx.inj he).symm
      · refine h.probe.assign (fun m hm i => ?_) (.inr fun m hm => ?_)
        · rw [(hms m hm).2]
          nofun
        · rw [(hms m hm).1]
          nofun

/-- The driver accepts some packets of the burst. -/
theorem txSend {ret : Nat} (h : OwnInv own s) (hs : sendBurst s portid ret = some s') :
    ∃ own', OwnInv own' s' := by
  unfold sendBurst at hs
  split at hs
  next accepted pkts hpc =>
    split at hs
    next => cases hs
    have hs := Option.some.inj hs
    have htx := h.tx portid
    rw [hpc] at htx
    obtain ⟨hnodup, hpkts, hacc⟩ := htx
    have htake : ∀ {m}, m ∈ pkts.take ret → m.pool = .tx portid ∧ own m = .tx portid :=
      fun hm => hpkts _ (List.mem_of_mem_take hm)
    refine ⟨assign own (pkts.take ret) .driver, ?_⟩
    subst hs
    refine ⟨h.owned.accept (hnodup.sublist (List.take_sublist ..)) fun m hm => ?_,
      fun q => ?_, h.probe.assign (fun m hm i => ?_) (.inl (.inl rfl))⟩
    · rw [(htake hm).2]
      exact ⟨nofun, nofun⟩
    · by_cases hq : q = portid
      · subst hq
        simp only [State.setTx, Function.update_self]
        -- what was accepted, now or before, is gone
        have hgone : ∀ m ∈ accepted ++ pkts.take ret,
            m.pool = .tx q ∧ Gone (assign own (pkts.take ret) .driver) m := by
          intro m hm
          rcases List.mem_append.mp hm with hm | hm
          · exact ⟨(hacc m hm).1, (hacc m hm).2.assign (.inl rfl)⟩
          · exact ⟨(htake hm).1, .inl (assign_of_mem hm)⟩
        split
        next => exact hgone
        next =>
          refine ⟨hnodup.sublist (List.drop_sublist ..), fun m hm => ?_, hgone⟩
          have hnot : m ∉ pkts.take ret := fun hin => by
            have happ := hnodup
            rw [← List.take_append_drop ret pkts] at happ
            exact (List.nodup_append.mp happ).2.2 m hin m hm rfl
          rw [assign_of_not_mem hnot]
          exact hpkts m (List.mem_of_mem_drop hm)
      · simp only [State.setTx, Function.update_of_ne hq]
        refine (h.tx q).assign (fun m hm => ?_) (.inl (.inl rfl))
        rw [(htake hm).2]
        exact fun he => hq (Owner.tx.inj he).symm
    · rw [(htake hm).2]
      nofun
  next => cases hs

/-- The callback looks for the next port, and builds a frame for it. -/
theorem probeNext {got : Option MbufId} (h : OwnInv own s)
    (hs : probeNext cfg s got = some s') : ∃ own', OwnInv own' s' := by
  unfold Mbuf.probeNext at hs
  split at hs
  next i hpc =>
    have hnot : ∀ j, s.probe ≠ .free j := by
      rw [hpc]
      nofun
    split at hs
    next => exact ⟨own, Option.some.inj hs ▸ ⟨h.owned, h.tx, h.probe.move hnot nofun⟩⟩
    split at hs
    next => exact ⟨own, Option.some.inj hs ▸ ⟨h.owned, h.tx, h.probe.move hnot nofun⟩⟩
    split at hs
    next hnone =>
      cases got with
      | none => exact ⟨own, Option.some.inj hs ▸ ⟨h.owned, h.tx, h.probe.move hnot nofun⟩⟩
      | some m =>
          obtain ⟨d, ha, rfl⟩ := Option.map_eq_some_iff.mp hs
          obtain ⟨hpool, hfree, howned⟩ :=
            h.owned.alloc ha (o := .probe i) ⟨nofun, nofun⟩
          refine ⟨assign own [m] (.probe i), howned, fun q => ?_, fun j x hx => ?_⟩
          · refine (h.tx q).assign (fun x hx => ?_) (.inr fun x hx => ?_)
            · rw [List.mem_singleton.mp hx, hfree]
              nofun
            · rw [List.mem_singleton.mp hx, hpool]
              nofun
          · rw [if_neg nofun]
            by_cases hj : j = i
            · subst hj
              simp only [Function.update_self] at hx
              cases hx
              exact ⟨hpool, assign_self⟩
            · simp only [Function.update_of_ne hj] at hx
              obtain ⟨hxpool, hxown⟩ := h.probe j x hx
              rw [if_neg (hnot j)] at hxown
              refine ⟨hxpool, ?_⟩
              rw [assign_of_not_mem fun hmem => ?_]
              · exact hxown
              · rw [List.mem_singleton.mp hmem, hfree] at hxown
                cases hxown
    next => exact ⟨own, Option.some.inj hs ▸ ⟨h.owned, h.tx, h.probe.move hnot nofun⟩⟩
  next => cases hs

/-- The callback offers a frame. -/
theorem probeSend {ret : Nat} (h : OwnInv own s) (hs : probeSend s ret = some s') :
    ∃ own', OwnInv own' s' := by
  unfold Mbuf.probeSend at hs
  split at hs
  next i hpc =>
    have hnot : ∀ j, s.probe ≠ .free j := by
      rw [hpc]
      nofun
    split at hs
    next => cases hs
    split at hs
    next => exact ⟨own, Option.some.inj hs ▸ ⟨h.owned, h.tx, h.probe.move hnot nofun⟩⟩
    obtain ⟨m, hm, rfl⟩ := Option.map_eq_some_iff.mp hs
    obtain ⟨-, hown⟩ := h.probe i m hm
    rw [if_neg (hnot i)] at hown
    refine ⟨assign own [m] .driver,
      h.owned.accept (List.nodup_singleton m) fun x hx => ?_,
      fun q => (h.tx q).assign (fun x hx => ?_) (.inl (.inl rfl)), fun j x hx => ?_⟩
    · rw [List.mem_singleton.mp hx, hown]
      exact ⟨nofun, nofun⟩
    · rw [List.mem_singleton.mp hx, hown]
      nofun
    · obtain ⟨hxpool, hxown⟩ := h.probe j x hx
      rw [if_neg (hnot j)] at hxown
      refine ⟨hxpool, ?_⟩
      by_cases hj : j = i
      · subst hj
        rw [if_pos rfl, Option.some.inj (hx.symm.trans hm)]
        exact .inl assign_self
      · rw [if_neg fun he => hj (ProbePc.free.inj he).symm,
          assign_of_not_mem fun hmem => ?_]
        · exact hxown
        · rw [List.mem_singleton.mp hmem, hown] at hxown
          exact hj (Owner.probe.inj hxown).symm
  next => cases hs

/-- A completion. -/
theorem complete {m : MbufId} {d : Dpdk} (h : OwnInv own s)
    (hd : driverComplete s.dpdk m = some d) :
    ∃ own', OwnInv own' { s with dpdk := d } := by
  obtain ⟨hown, howned⟩ := h.owned.complete hd
  have hsing : ∀ {x}, x ∈ [m] → own x = .driver := fun hx => by
    rw [List.mem_singleton.mp hx]
    exact hown
  refine ⟨assign own [m] .free, howned,
    fun q => (h.tx q).assign (fun x hx => ?_) (.inl (.inr rfl)),
    h.probe.assign (fun x hx i => ?_) (.inl (.inr rfl))⟩
  · rw [hsing hx]
    nofun
  · rw [hsing hx]
    nofun

/-- The invariant is kept by every step but the senders' frees. -/
theorem step {a : Act} (h : OwnInv own s) (ha : ¬ a.Frees)
    (hs : step cfg s a = some s') : ∃ own', OwnInv own' s' := by
  cases a with
  | txBurst portid due got => exact h.txBurst hs
  | txSend portid ret => exact h.txSend hs
  | txFree portid => exact absurd trivial ha
  | probeFire running =>
      unfold Mbuf.step at hs
      simp only at hs
      split at hs
      next => cases hs
      next hidle =>
        have hidle := not_not.mp hidle
        refine ⟨own, ?_⟩
        cases running with
        | false => exact Option.some.inj hs ▸ h
        | true =>
            refine Option.some.inj hs ▸ ⟨h.owned, h.tx, h.probe.move ?_ nofun⟩
            rw [hidle]
            nofun
  | probeNext got => exact h.probeNext hs
  | probeSend ret => exact h.probeSend hs
  | probeFree => exact absurd trivial ha
  | complete m =>
      obtain ⟨d, hd, rfl⟩ := Option.map_eq_some_iff.mp hs
      exact h.complete hd

/-- Those break the property. -/
theorem frees_unsafe {a : Act} (h : OwnInv own s) (ha : a.Frees)
    (hs : Mbuf.step cfg s a = some s') : ¬ Safe s'.dpdk := by
  cases a with
  | txFree portid =>
      unfold Mbuf.step freeBulk at hs
      simp only at hs
      split at hs
      next m mList hpc =>
        have htx := h.tx portid
        rw [hpc] at htx
        obtain ⟨-, hgone⟩ := htx m List.mem_cons_self
        exact Option.some.inj hs ▸ h.owned.free_unsafe hgone
      next => cases hs
  | probeFree =>
      unfold Mbuf.step Mbuf.probeFree at hs
      simp only at hs
      split at hs
      next i hpc =>
        obtain ⟨m, hm, rfl⟩ := Option.map_eq_some_iff.mp hs
        obtain ⟨-, hgone⟩ := h.probe i m hm
        rw [if_pos hpc] at hgone
        exact h.owned.free_unsafe hgone
      next => cases hs
  | txBurst => exact ha.elim
  | txSend => exact ha.elim
  | probeFire => exact ha.elim
  | probeNext => exact ha.elim
  | probeSend => exact ha.elim
  | complete => exact ha.elim

end OwnInv

-- ================================================================== the runs

/-- All states of a run are safe. -/
def SafeRun (cfg : Cfg) (s : State) (as : List Act) : Prop :=
  ∀ bs cs s', as = bs ++ cs → Lts.run (step cfg) s bs = some s' → Safe s'.dpdk

/-- From a state of the invariant, a run is safe if and only if no sender
frees a packet in it. -/
theorem OwnInv.run_safe_iff {cfg : Cfg} {own : MbufId → Owner} {s s' : State} {as : List Act}
    (h : OwnInv own s) (hrun : Lts.run (Mbuf.step cfg) s as = some s') :
    SafeRun cfg s as ↔ ∀ a ∈ as, ¬ a.Frees := by
  induction as generalizing own s with
  | nil =>
      refine iff_of_true (fun bs cs t happ ht => ?_) nofun
      rw [(List.append_eq_nil_iff.mp happ.symm).1, Lts.run_nil] at ht
      exact Option.some.inj ht ▸ h.owned.safe
  | cons a as ih =>
      obtain ⟨s₁, ha, hrest⟩ := Lts.run_cons_eq_some.mp hrun
      constructor
      · intro hsafe
        have hkeep : ¬ a.Frees := fun hf =>
          h.frees_unsafe hf ha (hsafe [a] as s₁ rfl (Lts.run_cons_eq_some.mpr ⟨s₁, ha, rfl⟩))
        obtain ⟨own₁, h₁⟩ := h.step hkeep ha
        have htail : SafeRun cfg s₁ as := fun bs cs t happ ht =>
          hsafe (a :: bs) cs t (congrArg _ happ) (Lts.run_cons_eq_some.mpr ⟨s₁, ha, ht⟩)
        exact List.forall_mem_cons.mpr ⟨hkeep, (ih h₁ hrest).mp htail⟩
      · intro hall
        obtain ⟨hkeep, hall⟩ := List.forall_mem_cons.mp hall
        obtain ⟨own₁, h₁⟩ := h.step hkeep ha
        intro bs cs t happ ht
        cases bs with
        | nil => exact Option.some.inj ht ▸ h.owned.safe
        | cons b bs =>
            obtain ⟨hab, htail⟩ := List.cons.inj happ
            obtain ⟨s₂, hb, ht⟩ := Lts.run_cons_eq_some.mp ht
            cases ha.symm.trans (hab ▸ hb)
            exact (ih h₁ hrest).mpr hall bs cs t htail ht

/-- In a run of the two senders and the driver no mbuf is released too often,
is free while the driver holds it, or is in its pool twice, if and only if
neither sender frees a packet. -/
theorem safe_iff_no_free {cfg : Cfg} {as : List Act} {s : State}
    (hrun : Lts.run (step cfg) (start cfg) as = some s) :
    SafeRun cfg (start cfg) as ↔ ∀ a ∈ as, ¬ a.Frees :=
  (OwnInv.start cfg).run_safe_iff hrun

/-- Two ports with 40 mbufs each, and four for the probes. -/
def twoPorts : Cfg where
  nbPorts := 2
  portIsEnabled i := i < 2
  poolSize
    | .tx _ => 40
    | .probe => 4

/-- A burst of port 0 of which the driver has accepted ten packets, and the
offers of a first probe to each port; three packets are completed. -/
def burstAndProbes : List Act :=
  [.txBurst 0 true (some ((List.range 32).map (MbufId.mk (.tx 0)))), .probeFire true,
    .txSend 0 10, .probeNext (some ⟨.probe, 0⟩), .complete ⟨.tx 0, 3⟩, .probeSend 0,
    .complete ⟨.tx 0, 0⟩, .probeNext (some ⟨.probe, 1⟩), .probeSend 1,
    .complete ⟨.probe, 1⟩]

theorem safe_iff_no_free_twoPorts : SafeRun twoPorts (start twoPorts) burstAndProbes := by
  have hsome : (Lts.run (step twoPorts) (start twoPorts) burstAndProbes).isSome := by
    decide +kernel
  obtain ⟨s, hs⟩ := Option.isSome_iff_exists.mp hsome
  exact (safe_iff_no_free hs).mpr (by decide +kernel)

/-- The first probe of port 0 is accepted and freed: it is in its pool while
the driver holds it. -/
theorem accepted_probe_freed :
    ∃ s, Lts.run (step twoPorts) (start twoPorts)
        [.probeFire true, .probeNext (some ⟨.probe, 0⟩), .probeSend 1, .probeFree] = some s
      ∧ ¬ Safe s.dpdk := by
  have hrun : (Lts.run (step twoPorts) (start twoPorts)
      [.probeFire true, .probeNext (some ⟨.probe, 0⟩), .probeSend 1, .probeFree]).map
        (fun s => (s.dpdk.driver, s.dpdk.pool .probe))
      = some ([⟨.probe, 0⟩], [⟨.probe, 0⟩, ⟨.probe, 1⟩, ⟨.probe, 2⟩, ⟨.probe, 3⟩]) := by
    decide +kernel
  obtain ⟨s, hs, hview⟩ := Option.map_eq_some_iff.mp hrun
  obtain ⟨hdriver, hpool⟩ := Prod.mk.inj hview
  refine ⟨s, hs, fun hsafe => hsafe.driver ⟨.probe, 0⟩ ?_ ?_⟩
  · rw [hdriver]
    exact List.mem_singleton.mpr rfl
  · rw [hpool]
    exact List.mem_cons_self

end PktSender.Mbuf
