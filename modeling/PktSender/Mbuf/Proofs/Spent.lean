/-
A port's traffic comes to an end.

# The life of an mbuf

`Life` is what one mbuf of a TX pool goes through, with the rest of the system
left out: it is allocated when its count is zero, offered, freed by its sender,
and released by the driver as often as the driver accepted it. A step of the
system is a step of each such life (`life_step`).

# The count

The sender's free already takes back the reference that was allocated, so
from the driver's first release on the count is below zero: between bursts it
says how often the driver has released the mbuf, counted down from 2^16
(`Life.Bounded`). The check of `__pktmbuf_alloc_bulk` lets the mbuf through
again only when that is 0 modulo 2^16. But until then the driver can only
release what it holds, and that is no more than its queue has room for. So an
mbuf that the driver has released once is never sent again.
-/
import PktSender.Mbuf.Proofs.Moves
import PktSender.Mbuf.Proofs.Ownership
import PktSender.Lib.Lts
import Mathlib.Algebra.BigOperators.Group.Finset.Basic
import Mathlib.Algebra.Order.BigOperators.Group.Finset
import Mathlib.Algebra.Group.Nat.Defs

namespace PktSender.Mbuf

-- ================================================================ the driver

/-- What the driver does with a packet. -/
inductive DriverOp where
  | accept (m : MbufId)
  | complete (m : MbufId)
deriving DecidableEq

/-- What it does in a step. -/
def driverOps (s : State) : Act → List DriverOp
  | .txSend portid ret =>
      match s.tx portid with
      | .sending _ pkts => (pkts.take ret).map .accept
      | _ => []
  | .probeSend ret =>
      match s.probe with
      | .send i => ((s.nextPkt i).toList.take ret).map .accept
      | _ => []
  | .complete m => [.complete m]
  | _ => []

/-- The packets it accepts from a pool. -/
def DriverOp.acceptedFrom (mp : Pool) : DriverOp → Option MbufId
  | .accept m => if m.pool = mp then some m else none
  | .complete _ => none

/-- The queue of a port has room for what it holds. -/
def QueueFits (portid : UInt8) (nbTxDesc : ℕ) (s : State) : Prop :=
  s.dpdk.driver.countP (fun m => m.pool = .tx portid) ≤ nbTxDesc

instance (portid : UInt8) (nbTxDesc : ℕ) (s : State) : Decidable (QueueFits portid nbTxDesc s) :=
  inferInstanceAs (Decidable (_ ≤ _))

-- ================================================================== one life

/-- An mbuf: its count, how often the driver holds it, how often its sender
does and how many of these are still to be offered, and what the driver has
done with it so far. -/
@[ext] structure Life where
  refcnt : UInt16
  driver : ℕ
  held : ℕ
  pending : ℕ
  accepted : ℕ
  completed : ℕ

/-- What can happen to it. -/
inductive Life.Step : Life → Life → Prop
  | stay (l : Life) : Step l l
  | alloc {l : Life} : l.refcnt = 0 → l.held = 0 →
      Step l { l with refcnt := 1, held := 1, pending := 1 }
  | accept {l : Life} {k : ℕ} : k ≤ l.pending →
      Step l { l with
        driver := l.driver + k
        pending := l.pending - k
        accepted := l.accepted + k }
  | free {l : Life} : 0 < l.held → l.pending = 0 →
      Step l { l with refcnt := l.refcnt - 1, held := l.held - 1 }
  | complete {l : Life} : 0 < l.driver →
      Step l { l with
        refcnt := l.refcnt - 1
        driver := l.driver - 1
        completed := l.completed + 1 }

/-- The count and the numbers of a life when the driver holds an mbuf at most
`n` times. -/
structure Life.Bounded (n : ℕ) (l : Life) : Prop where
  accepted : l.accepted = l.driver + l.completed
  refcnt : l.held % 2 ^ 16 = (l.refcnt.toNat + l.completed) % 2 ^ 16
  held : l.held ≤ 1
  pending : l.pending ≤ l.held
  room : l.accepted + l.pending ≤ n + 1

namespace Life

variable {n : ℕ} {l l' : Life}

theorem toNat_sub_one (r : UInt16) : (r - 1).toNat = (2 ^ 16 - 1 + r.toNat) % 2 ^ 16 :=
  UInt16.toNat_sub r 1

/-- One that can be allocated was never released by the driver. -/
theorem Bounded.unreleased (h : l.Bounded n) (hn : n + 1 < 2 ^ 16) (hzero : l.refcnt = 0)
    (hheld : l.held = 0) : l.completed = 0 := by
  have hmod := h.refcnt
  rw [hzero, hheld, UInt16.toNat_zero, Nat.zero_add, Nat.zero_mod] at hmod
  have hlt : l.completed < 2 ^ 16 := by
    have hacc := h.accepted
    have hroom := h.room
    omega
  rw [Nat.mod_eq_of_lt hlt] at hmod
  exact hmod.symm

/-- A step keeps the bound while the driver holds no more than `n`. -/
theorem Bounded.step (h : l.Bounded n) (hn : n + 1 < 2 ^ 16) (hfits : l.driver ≤ n)
    (hs : Step l l') : l'.Bounded n := by
  obtain ⟨hacc, hcount, hheld, hpend, hroom⟩ := h
  cases hs with
  | stay => exact ⟨hacc, hcount, hheld, hpend, hroom⟩
  | alloc hzero hnone =>
      have hdone := Bounded.unreleased ⟨hacc, hcount, hheld, hpend, hroom⟩ hn hzero hnone
      refine ⟨hacc, ?_, Nat.le_refl 1, Nat.le_refl 1, ?_⟩
      · show 1 % 2 ^ 16 = ((1 : UInt16).toNat + l.completed) % 2 ^ 16
        rw [hdone]
        rfl
      · show l.accepted + 1 ≤ n + 1
        rw [hacc, hdone]
        exact Nat.succ_le_succ hfits
  | @accept k hk =>
      refine ⟨?_, hcount, hheld, (Nat.sub_le _ _).trans hpend, ?_⟩
      · show l.accepted + k = l.driver + k + l.completed
        omega
      · show l.accepted + k + (l.pending - k) ≤ n + 1
        omega
  | free hpos hnone =>
      refine ⟨hacc, ?_, (Nat.sub_le _ _).trans hheld, ?_, hroom⟩
      · show (l.held - 1) % 2 ^ 16 = ((l.refcnt - 1).toNat + l.completed) % 2 ^ 16
        rw [toNat_sub_one]
        omega
      · show l.pending ≤ l.held - 1
        rw [hnone]
        exact Nat.zero_le _
  | complete hpos =>
      refine ⟨?_, ?_, hheld, hpend, hroom⟩
      · show l.accepted = l.driver - 1 + (l.completed + 1)
        omega
      · show l.held % 2 ^ 16 = ((l.refcnt - 1).toNat + (l.completed + 1)) % 2 ^ 16
        rw [toNat_sub_one]
        omega

end Life

-- ========================================================== the system's lives

section Lives

variable {cfg : Cfg} {s s' : State} {d d' : Dpdk} {p portid : UInt8} {m : MbufId} {mp : Pool}
  {ops : List DriverOp}

/-- What is still to be offered. -/
def TxPc.pending : TxPc → List MbufId
  | .sending _ pkts => pkts
  | _ => []

theorem pending_sent (accepted pkts : List MbufId) :
    (if pkts = [] then TxPc.freeing accepted else .sending accepted pkts).pending = pkts := by
  split
  next hnil => exact hnil.symm
  next => rfl

theorem pending_freed (mList : List MbufId) :
    (if mList = [] then TxPc.idle else .freeing mList).pending = [] := by
  split
  next => rfl
  next => rfl

/-- The life of an mbuf of a port's pool. -/
def lifeOf (p : UInt8) (m : MbufId) (s : State) (ops : List DriverOp) : Life where
  refcnt := s.dpdk.refcnt m
  driver := s.dpdk.driver.count m
  held := (s.tx p).held.count m
  pending := (s.tx p).pending.count m
  accepted := ops.count (.accept m)
  completed := ops.count (.complete m)

theorem count_accept_map (ms : List MbufId) :
    (ms.map DriverOp.accept).count (.accept m) = ms.count m :=
  List.count_map_of_injective ms DriverOp.accept (fun _ _ heq => DriverOp.accept.inj heq) m

theorem count_complete_map (ms : List MbufId) :
    (ms.map DriverOp.accept).count (.complete m) = 0 := by
  refine List.count_eq_zero.mpr fun hmem => ?_
  obtain ⟨x, -, heq⟩ := List.mem_map.mp hmem
  cases heq

/-- A bulk allocation gives each mbuf its reference, and none twice. -/
theorem allocBulk_refcnt {ms : List MbufId} (ha : pktmbufAllocBulk d mp ms = some d') :
    d'.driver = d.driver ∧ ms.Nodup
      ∧ (∀ m ∈ ms, d.refcnt m = 0 ∧ d'.refcnt m = 1) ∧ ∀ m ∉ ms, d'.refcnt m = d.refcnt m := by
  unfold pktmbufAllocBulk at ha
  induction ms generalizing d with
  | nil =>
      cases ha
      exact ⟨rfl, List.nodup_nil, List.forall_mem_nil _, fun _ _ => rfl⟩
  | cons x ms ih =>
      rw [List.foldlM_cons] at ha
      obtain ⟨d₁, ha₁, ha⟩ := Option.bind_eq_some_iff.mp ha
      obtain ⟨hdriver, hnodup, hin, hout⟩ := ih ha
      unfold rtePktmbufAlloc at ha₁
      split at ha₁
      next => cases ha₁
      split at ha₁
      next => cases ha₁
      next hzero =>
        cases ha₁
        have hx : x ∉ ms := fun hmem => by
          -- it would be checked again, and has a reference by then
          have hagain := (hin x hmem).1
          simp only [Function.update_self] at hagain
          cases hagain
        have hother : ∀ m, m ≠ x → Function.update d.refcnt x 1 m = d.refcnt m := fun m hm =>
          Function.update_of_ne hm ..
        refine ⟨hdriver, List.nodup_cons.mpr ⟨hx, hnodup⟩,
          List.forall_mem_cons.mpr ⟨⟨not_not.mp hzero, ?_⟩, fun m hm => ?_⟩, fun m hm => ?_⟩
        · rw [hout x hx]
          exact Function.update_self ..
        · obtain ⟨hfree, hone⟩ := hin m hm
          exact ⟨(hother m fun heq => hx (heq ▸ hm)).symm.trans hfree, hone⟩
        · obtain ⟨hne, hm⟩ := not_or.mp (List.mem_cons.not.mp hm)
          exact (hout m hm).trans (hother m hne)

/-- Freeing an mbuf counts it down and no other. -/
theorem free_refcnt (d : Dpdk) (x m : MbufId) :
    (rtePktmbufFree d x).refcnt m = if m = x then d.refcnt m - 1 else d.refcnt m := by
  unfold rtePktmbufFree
  simp only [Function.update_apply]
  split
  next heq => rw [heq]
  next => rfl

/-- Nothing happens to the mbuf. -/
theorem stays {new : List DriverOp} (hrefcnt : s'.dpdk.refcnt m = s.dpdk.refcnt m)
    (hdriver : s'.dpdk.driver.count m = s.dpdk.driver.count m)
    (hheld : (s'.tx p).held.count m = (s.tx p).held.count m)
    (hpending : (s'.tx p).pending.count m = (s.tx p).pending.count m)
    (haccept : new.count (.accept m) = 0) (hcomplete : new.count (.complete m) = 0) :
    (lifeOf p m s ops).Step (lifeOf p m s' (ops ++ new)) := by
  have heq : lifeOf p m s' (ops ++ new) = lifeOf p m s ops := by
    refine Life.ext hrefcnt hdriver hheld hpending ?_ ?_
    · exact (List.count_append ..).trans (by rw [haccept]; rfl)
    · exact (List.count_append ..).trans (by rw [hcomplete]; rfl)
  rw [heq]
  exact .stay _

theorem setTx_self (s : State) (pc : TxPc) : (s.setTx p pc).tx p = pc :=
  Function.update_self ..

theorem setTx_ne (s : State) (pc : TxPc) (h : p ≠ portid) :
    (s.setTx portid pc).tx p = s.tx p := Function.update_of_ne h ..

/-- A step of another port's thread. -/
theorem stays_other {new : List DriverOp} {pc : TxPc} (hp : p ≠ portid)
    (hrefcnt : d.refcnt m = s.dpdk.refcnt m)
    (hdriver : d.driver.count m = s.dpdk.driver.count m)
    (haccept : new.count (.accept m) = 0) (hcomplete : new.count (.complete m) = 0) :
    (lifeOf p m s ops).Step
      (lifeOf p m (({ s with dpdk := d } : State).setTx portid pc) (ops ++ new)) := by
  refine stays hrefcnt hdriver ?_ ?_ haccept hcomplete
  · rw [setTx_ne _ _ hp]
  · rw [setTx_ne _ _ hp]

/-- An mbuf of another pool is another one. -/
theorem FromPool.ne {x : MbufId} (hx : FromPool cfg mp x) (hm : m.pool ≠ mp) : x ≠ m :=
  fun heq => hm (heq ▸ hx.1)

/-- An mbuf of a port is not of another one, -/
theorem tx_ne {q : UInt8} (hm : m.pool = .tx p) (hq : p ≠ q) : m.pool ≠ .tx q := by
  rw [hm]
  exact fun heq => hq (Pool.tx.inj heq)

/-- nor of the probes. -/
theorem probe_ne (hm : m.pool = .tx p) : m.pool ≠ .probe := by
  rw [hm]
  exact fun heq => Pool.noConfusion heq

/-- A call of `tx_ctl_tx_burst` gets its mbufs or does nothing. -/
theorem txCtlTxBurst_cases {due : Bool} {got : Option (List MbufId)}
    (hs : txCtlTxBurst s portid due got = some s') :
    s.tx portid = .idle ∧ ((s' = s ∧ (due = false ∨ got = none))
      ∨ ∃ ms d, due = true ∧ got = some ms ∧ pktmbufAllocBulk s.dpdk (.tx portid) ms = some d
        ∧ s' = ({ s with dpdk := d } : State).setTx portid (.sending [] ms)) := by
  unfold txCtlTxBurst at hs
  split at hs
  next => cases hs
  next hidle =>
    refine ⟨not_not.mp hidle, ?_⟩
    cases due with
    | false =>
        cases hs
        exact .inl ⟨rfl, .inl rfl⟩
    | true =>
        cases got with
        | none =>
            cases hs
            exact .inl ⟨rfl, .inr rfl⟩
        | some ms =>
            simp only [Bool.not_true, Bool.false_eq_true, if_false] at hs
            split at hs
            next => cases hs
            obtain ⟨d, ha, rfl⟩ := Option.map_eq_some_iff.mp hs
            exact .inr ⟨ms, d, rfl, rfl, ha, rfl⟩

/-- A call takes the mbuf when its count is zero, or leaves it alone. -/
theorem life_txBurst {due : Bool} {got : Option (List MbufId)} (h : InPlace cfg s)
    (hm : m.pool = .tx p) (hs : txCtlTxBurst s portid due got = some s') :
    (lifeOf p m s ops).Step (lifeOf p m s' (ops ++ [])) := by
  obtain ⟨hidle, ⟨rfl, -⟩ | ⟨ms, d, -, -, ha, rfl⟩⟩ := txCtlTxBurst_cases hs
  · exact stays rfl rfl rfl rfl rfl rfl
  obtain ⟨hpool, -⟩ := h.dpdk.allocBulk ha
  obtain ⟨hdriver, hnodup, hin, hout⟩ := allocBulk_refcnt ha
  have hcount : d.driver.count m = s.dpdk.driver.count m := by rw [hdriver]
  by_cases hp : p = portid
  · subst hp
    by_cases hmem : m ∈ ms
    · obtain ⟨hzero, hone⟩ := hin m hmem
      have hheld : (s.tx p).held.count m = 0 := by
        rw [hidle]
        rfl
      have heq : lifeOf p m (({ s with dpdk := d } : State).setTx p (.sending [] ms)) (ops ++ [])
          = { lifeOf p m s ops with refcnt := 1, held := 1, pending := 1 } := by
        rw [List.append_nil]
        refine Life.ext hone hcount ?_ ?_ rfl rfl
        · show (TxPc.held _).count m = 1
          rw [setTx_self]
          exact List.count_eq_one_of_mem hnodup hmem
        · show (TxPc.pending _).count m = 1
          rw [setTx_self]
          exact List.count_eq_one_of_mem hnodup hmem
      rw [heq]
      exact .alloc hzero hheld
    · refine stays (hout m hmem) hcount ?_ ?_ rfl rfl
      · rw [setTx_self, hidle]
        exact List.count_eq_zero.mpr hmem
      · rw [setTx_self, hidle]
        exact List.count_eq_zero.mpr hmem
  · have hmem : m ∉ ms := fun hmem => (hpool m hmem).ne (tx_ne hm hp) rfl
    exact stays_other hp (hout m hmem) hcount rfl rfl

/-- A burst hands it to the driver, or its thread keeps it. -/
theorem life_txSend {ret : ℕ} (h : InPlace cfg s) (hm : m.pool = .tx p)
    (hs : sendBurst s portid ret = some s') :
    (lifeOf p m s ops).Step (lifeOf p m s' (ops ++ driverOps s (.txSend portid ret))) := by
  unfold sendBurst at hs
  split at hs
  next accepted pkts hpc =>
    have hheld := h.tx portid
    rw [hpc] at hheld
    split at hs
    next => cases hs
    simp only at hs
    cases hs
    have hops : driverOps s (.txSend portid ret) = (pkts.take ret).map .accept := by
      simp only [driverOps, hpc]
    rw [hops]
    by_cases hp : p = portid
    · subst hp
      have hsplit : (pkts.take ret).count m + (pkts.drop ret).count m = pkts.count m := by
        rw [← List.count_append, List.take_append_drop]
      have hpending : (s.tx p).pending.count m = pkts.count m := by
        rw [hpc]
        rfl
      have heq : lifeOf p m (({ s with
            dpdk := rteEthTxBurst s.dpdk (pkts.take ret) } : State).setTx p
            (if pkts.drop ret = [] then .freeing (accepted ++ pkts.take ret)
              else .sending (accepted ++ pkts.take ret) (pkts.drop ret)))
            (ops ++ (pkts.take ret).map .accept)
          = { lifeOf p m s ops with
              driver := s.dpdk.driver.count m + (pkts.take ret).count m
              pending := (s.tx p).pending.count m - (pkts.take ret).count m
              accepted := ops.count (.accept m) + (pkts.take ret).count m } := by
        refine Life.ext rfl (List.count_append ..) ?_ ?_ ?_ ?_
        · show (TxPc.held _).count m = (s.tx p).held.count m
          rw [setTx_self, held_sent, List.append_assoc, List.take_append_drop, hpc]
          rfl
        · show (TxPc.pending _).count m = (s.tx p).pending.count m - _
          rw [setTx_self, pending_sent, hpending, ← hsplit, Nat.add_sub_cancel_left]
        · show (ops ++ _).count _ = _
          rw [List.count_append, count_accept_map]
        · show (ops ++ _).count _ = _
          rw [List.count_append, count_complete_map]
          rfl
      rw [heq]
      refine .accept ?_
      show _ ≤ (s.tx p).pending.count m
      rw [hpending, ← hsplit]
      exact Nat.le_add_right _ _
    · have hmem : m ∉ pkts.take ret := fun hmem =>
        (hheld m (List.mem_append_right _ (List.mem_of_mem_take hmem))).ne (tx_ne hm hp) rfl
      have hcount := List.count_eq_zero.mpr hmem
      refine stays_other hp rfl ?_ ?_ (count_complete_map _)
      · show (s.dpdk.driver ++ _).count m = _
        rw [List.count_append, hcount]
        rfl
      · rw [count_accept_map, hcount]
  next => cases hs

/-- The thread releases one reference, -/
theorem life_txFree (h : InPlace cfg s) (hm : m.pool = .tx p)
    (hs : freeBulk s portid = some s') :
    (lifeOf p m s ops).Step (lifeOf p m s' (ops ++ [])) := by
  unfold freeBulk at hs
  split at hs
  next x mList hpc =>
    have hheld := h.tx portid
    rw [hpc] at hheld
    simp only at hs
    cases hs
    have hrefcnt := free_refcnt s.dpdk x m
    by_cases hp : p = portid
    · subst hp
      by_cases hx : m = x
      · subst hx
        rw [if_pos rfl] at hrefcnt
        have heq : lifeOf p m (({ s with dpdk := rtePktmbufFree s.dpdk m } : State).setTx p
              (if mList = [] then .idle else .freeing mList)) (ops ++ [])
            = { lifeOf p m s ops with
                refcnt := s.dpdk.refcnt m - 1
                held := (s.tx p).held.count m - 1 } := by
          rw [List.append_nil]
          refine Life.ext hrefcnt rfl ?_ ?_ rfl rfl
          · show (TxPc.held _).count m = (s.tx p).held.count m - 1
            rw [setTx_self, held_freed, hpc]
            exact (Nat.add_sub_cancel ..).symm.trans
              (congrArg (· - 1) (List.count_cons_self ..).symm)
          · show (TxPc.pending _).count m = (s.tx p).pending.count m
            rw [setTx_self, pending_freed, hpc]
            rfl
        rw [heq]
        refine .free ?_ ?_
        · show 0 < (s.tx p).held.count m
          rw [hpc]
          exact List.count_pos_iff.mpr List.mem_cons_self
        · show (s.tx p).pending.count m = 0
          rw [hpc]
          rfl
      · rw [if_neg hx] at hrefcnt
        refine stays hrefcnt rfl ?_ ?_ rfl rfl
        · rw [setTx_self, held_freed, hpc]
          exact (List.count_cons_of_ne (Ne.symm hx)).symm
        · rw [setTx_self, pending_freed, hpc]
          rfl
    · have hx : x ≠ m := (hheld x List.mem_cons_self).ne (tx_ne hm hp)
      rw [if_neg hx.symm] at hrefcnt
      exact stays_other hp hrefcnt rfl rfl rfl
  next => cases hs

/-- The timer callback has other mbufs. -/
theorem InPlace.nextPkt_ne {i : UInt8} {x : MbufId} (h : InPlace cfg s) (hm : m.pool = .tx p)
    (hx : s.nextPkt i = some x) : x ≠ m :=
  (h.nextPkt i x hx).ne (probe_ne hm)

theorem life_probeFire {running : Bool} (hs : step cfg s (.probeFire running) = some s') :
    (lifeOf p m s ops).Step (lifeOf p m s' (ops ++ [])) := by
  simp only [step] at hs
  split at hs
  next => cases hs
  cases hs
  split
  · exact stays rfl rfl rfl rfl rfl rfl
  · exact stays rfl rfl rfl rfl rfl rfl

/-- The callback leaves the mbufs of the ports alone. -/
theorem life_probeNext {got : Option MbufId} (h : InPlace cfg s) (hm : m.pool = .tx p)
    (hs : probeNext cfg s got = some s') :
    (lifeOf p m s ops).Step (lifeOf p m s' (ops ++ [])) := by
  unfold probeNext at hs
  split at hs
  next i _ =>
    split at hs
    next =>
      cases hs
      exact stays rfl rfl rfl rfl rfl rfl
    split at hs
    next =>
      cases hs
      exact stays rfl rfl rfl rfl rfl rfl
    split at hs
    next =>
      split at hs
      next =>
        cases hs
        exact stays rfl rfl rfl rfl rfl rfl
      next x =>
        obtain ⟨d, ha, rfl⟩ := Option.map_eq_some_iff.mp hs
        have hne := (h.dpdk.alloc ha).1.ne (probe_ne hm)
        -- one mbuf is a bulk of one
        have hbulk : pktmbufAllocBulk s.dpdk .probe [x] = some d :=
          Option.bind_eq_some_iff.mpr ⟨d, ha, rfl⟩
        obtain ⟨hdriver, -, -, hout⟩ := allocBulk_refcnt hbulk
        refine stays (hout m fun hmem => hne (List.mem_singleton.mp hmem).symm) ?_ rfl rfl rfl rfl
        rw [hdriver]
    next =>
      cases hs
      exact stays rfl rfl rfl rfl rfl rfl
  next => cases hs

theorem life_probeSend {ret : ℕ} (h : InPlace cfg s) (hm : m.pool = .tx p)
    (hs : probeSend s ret = some s') :
    (lifeOf p m s ops).Step (lifeOf p m s' (ops ++ driverOps s (.probeSend ret))) := by
  unfold probeSend at hs
  split at hs
  next i hpc =>
    have hops : driverOps s (.probeSend ret) = ((s.nextPkt i).toList.take ret).map .accept := by
      simp only [driverOps, hpc]
    have haccept : (driverOps s (.probeSend ret)).count (.accept m) = 0 := by
      rw [hops, count_accept_map]
      refine List.count_eq_zero.mpr fun hmem => ?_
      exact h.nextPkt_ne hm (Option.mem_toList.mp (List.mem_of_mem_take hmem)) rfl
    have hcomplete : (driverOps s (.probeSend ret)).count (.complete m) = 0 := by
      rw [hops, count_complete_map]
    split at hs
    next => cases hs
    split at hs
    next =>
      cases hs
      exact stays rfl rfl rfl rfl haccept hcomplete
    next =>
      obtain ⟨x, hnext, rfl⟩ := Option.map_eq_some_iff.mp hs
      refine stays rfl ?_ rfl rfl haccept hcomplete
      have hne : m ∉ [x] := fun hmem => h.nextPkt_ne hm hnext (List.mem_singleton.mp hmem).symm
      show (s.dpdk.driver ++ [x]).count m = _
      rw [List.count_append, List.count_eq_zero.mpr hne]
      rfl
  next => cases hs

theorem life_probeFree (h : InPlace cfg s) (hm : m.pool = .tx p)
    (hs : probeFree s = some s') :
    (lifeOf p m s ops).Step (lifeOf p m s' (ops ++ [])) := by
  unfold probeFree at hs
  split at hs
  next i _ =>
    obtain ⟨x, hnext, rfl⟩ := Option.map_eq_some_iff.mp hs
    refine stays ?_ rfl rfl rfl rfl rfl
    exact (free_refcnt s.dpdk x m).trans (if_neg (h.nextPkt_ne hm hnext).symm)
  next => cases hs

/-- and so does the driver. -/
theorem life_complete {x : MbufId} (hd : driverComplete s.dpdk x = some d) :
    (lifeOf p m s ops).Step (lifeOf p m { s with dpdk := d } (ops ++ [.complete x])) := by
  unfold driverComplete at hd
  split at hd
  next hmem =>
    cases hd
    have hrefcnt := free_refcnt { s.dpdk with driver := s.dpdk.driver.erase x } x m
    by_cases hx : m = x
    · subst hx
      rw [if_pos rfl] at hrefcnt
      have heq : lifeOf p m { s with
            dpdk := rtePktmbufFree { s.dpdk with driver := s.dpdk.driver.erase m } m }
            (ops ++ [.complete m])
          = { lifeOf p m s ops with
              refcnt := s.dpdk.refcnt m - 1
              driver := s.dpdk.driver.count m - 1
              completed := ops.count (.complete m) + 1 } := by
        refine Life.ext hrefcnt List.count_erase_self rfl rfl ?_ ?_
        · show (ops ++ _).count _ = ops.count _
          rw [List.count_append, List.count_singleton]
          rfl
        · show (ops ++ _).count _ = _
          rw [List.count_append, List.count_singleton_self]
      rw [heq]
      exact .complete (List.count_pos_iff.mpr hmem)
    · rw [if_neg hx] at hrefcnt
      refine stays hrefcnt (List.count_erase_of_ne hx) rfl rfl rfl ?_
      refine List.count_eq_zero.mpr fun hmem => hx ?_
      exact DriverOp.complete.inj (List.mem_singleton.mp hmem)
  next => cases hd

/-- A step of the system is a step of the mbuf's life. -/
theorem life_step {a : Act} (h : InPlace cfg s) (hm : m.pool = .tx p)
    (hs : step cfg s a = some s') :
    (lifeOf p m s ops).Step (lifeOf p m s' (ops ++ driverOps s a)) := by
  cases a with
  | txBurst portid due got => exact life_txBurst h hm hs
  | txSend portid ret => exact life_txSend h hm hs
  | txFree portid => exact life_txFree h hm hs
  | probeFire running => exact life_probeFire hs
  | probeNext got => exact life_probeNext h hm hs
  | probeSend ret => exact life_probeSend h hm hs
  | probeFree => exact life_probeFree h hm hs
  | complete x =>
      obtain ⟨d, hd, rfl⟩ := Option.map_eq_some_iff.mp hs
      exact life_complete hd

end Lives

-- ================================================================== the runs

section Runs

variable {cfg : Cfg} {s s' : State} {p : UInt8} {n : ℕ} {ops : List DriverOp}

/-- The lives of a port's mbufs so far. -/
structure Spent (cfg : Cfg) (p : UInt8) (n : ℕ) (s : State) (ops : List DriverOp) : Prop where
  inPlace : InPlace cfg s
  known : ∀ m, .accept m ∈ ops → Created cfg m
  lives : ∀ m, m.pool = .tx p → (lifeOf p m s ops).Bounded n

theorem Spent.start (cfg : Cfg) (p : UInt8) (n : ℕ) : Spent cfg p n (start cfg) [] :=
  ⟨.start cfg, fun _ hmem => absurd hmem List.not_mem_nil,
    fun _ _ => ⟨rfl, rfl, Nat.zero_le _, Nat.le_refl _, Nat.zero_le _⟩⟩

/-- The driver accepts what a thread holds. -/
theorem accepts_created {a : Act} {m : MbufId} (h : InPlace cfg s)
    (hmem : .accept m ∈ driverOps s a) : Created cfg m := by
  cases a with
  | txSend portid ret =>
      simp only [driverOps] at hmem
      split at hmem
      next accepted pkts hpc =>
        obtain ⟨x, hx, heq⟩ := List.mem_map.mp hmem
        cases heq
        have hheld := h.tx portid m
        rw [hpc] at hheld
        exact (hheld (List.mem_append_right _ (List.mem_of_mem_take hx))).2
      next => cases hmem
  | probeSend ret =>
      simp only [driverOps] at hmem
      split at hmem
      next i hpc =>
        obtain ⟨x, hx, heq⟩ := List.mem_map.mp hmem
        cases heq
        exact (h.nextPkt i m (Option.mem_toList.mp (List.mem_of_mem_take hx))).2
      next => cases hmem
  | complete x => cases List.mem_singleton.mp hmem
  | txBurst => cases hmem
  | txFree => cases hmem
  | probeFire => cases hmem
  | probeNext => cases hmem
  | probeFree => cases hmem

/-- One case for each part of a step. -/
theorem Spent.step {a : Act} (h : Spent cfg p n s ops) (hn : n + 1 < 2 ^ 16)
    (hfits : QueueFits p n s) (hs : step cfg s a = some s') :
    Spent cfg p n s' (ops ++ driverOps s a) := by
  refine ⟨h.inPlace.step hs, fun m hmem => ?_, fun m hm => ?_⟩
  · exact (List.mem_append.mp hmem).elim (h.known m) (accepts_created h.inPlace)
  · refine (h.lives m hm).step hn ?_ (life_step h.inPlace hm hs)
    refine (List.countP_mono_left fun x _ hx => ?_).trans hfits
    rw [beq_iff_eq.mp hx]
    exact decide_eq_true hm

/-- A list of things from a set, each at most so often. -/
theorem length_le_of_count_le {α : Type*} [DecidableEq α] {l : List α} {t : Finset α} {k : ℕ}
    (hmem : ∀ x ∈ l, x ∈ t) (hcount : ∀ x ∈ l, l.count x ≤ k) : l.length ≤ k * t.card := by
  have hsub : l.toFinset ⊆ t := fun x hx => hmem x (List.mem_toFinset.mp hx)
  calc l.length = ∑ x ∈ l.toFinset, l.count x := (List.sum_toFinset_count_eq_length l).symm
    _ ≤ l.toFinset.card • k :=
        Finset.sum_le_card_nsmul _ _ _ fun x hx => hcount x (List.mem_toFinset.mp hx)
    _ = k * l.toFinset.card := Nat.mul_comm _ _
    _ ≤ k * t.card := Nat.mul_le_mul_left k (Finset.card_le_card hsub)

theorem acceptedFrom_eq_some {mp : Pool} {op : DriverOp} {m : MbufId} :
    op.acceptedFrom mp = some m ↔ op = .accept m ∧ m.pool = mp := by
  cases op with
  | accept x =>
      simp only [DriverOp.acceptedFrom, Option.ite_none_right_eq_some, Option.some.injEq,
        DriverOp.accept.injEq]
      constructor
      · rintro ⟨hpool, rfl⟩
        exact ⟨rfl, hpool⟩
      · rintro ⟨rfl, hpool⟩
        exact ⟨hpool, rfl⟩
  | complete x => exact iff_of_false nofun nofun

/-- The packets accepted from a pool are its mbufs, each so often. -/
theorem Spent.accepted_le (h : Spent cfg p n s ops) :
    (ops.filterMap (·.acceptedFrom (.tx p))).length ≤ (n + 1) * cfg.poolSize (.tx p) := by
  have hmem : ∀ m ∈ ops.filterMap (·.acceptedFrom (.tx p)), .accept m ∈ ops ∧ m.pool = .tx p := by
    intro m hm
    obtain ⟨op, hop, heq⟩ := List.mem_filterMap.mp hm
    obtain ⟨rfl, hpool⟩ := acceptedFrom_eq_some.mp heq
    exact ⟨hop, hpool⟩
  have hcount : ∀ m ∈ ops.filterMap (·.acceptedFrom (.tx p)),
      (ops.filterMap (·.acceptedFrom (.tx p))).count m ≤ n + 1 := by
    intro m hm
    rw [List.count_filterMap]
    refine (List.countP_mono_left fun op _ hop => ?_).trans
      ((Nat.le_add_right _ _).trans (h.lives m (hmem m hm).2).room)
    exact beq_iff_eq.mpr (acceptedFrom_eq_some.mp (beq_iff_eq.mp hop)).1
  have hpool : ∀ m ∈ ops.filterMap (·.acceptedFrom (.tx p)),
      m ∈ ((Mbuf.start cfg).dpdk.pool (.tx p)).toFinset := fun m hm =>
    List.mem_toFinset.mpr (mem_pool_start.mpr ⟨(hmem m hm).2, h.known m (hmem m hm).1⟩)
  refine (length_le_of_count_le hpool hcount).trans (Nat.mul_le_mul_left _ ?_)
  refine (List.toFinset_card_le _).trans (Nat.le_of_eq ?_)
  exact List.length_map .. |>.trans List.length_range

/-- Whatever the threads and the driver do, as long as the queue of the port
has room for what the driver holds from its TX pool: a burst gets only mbufs
the driver has never released, and the driver accepts no more packets from the
pool than that leaves, ever. -/
theorem traffic_ends {nbTxDesc : ℕ} (hdesc : nbTxDesc + 1 < 2 ^ 16) {as : List Act}
    (hfits : Lts.AllSteps (Mbuf.step cfg) (fun s _ => QueueFits p nbTxDesc s) (start cfg) as)
    (hrun : Lts.run (Mbuf.step cfg) (start cfg) as = some s)
    (hops : Lts.observe (Mbuf.step cfg) driverOps (start cfg) as = ops) :
    (∀ mbufs s', Mbuf.step cfg s (.txBurst p true (some mbufs)) = some s' →
        ∀ m ∈ mbufs, .complete m ∉ ops)
      ∧ (ops.filterMap (·.acceptedFrom (.tx p))).length
        ≤ (nbTxDesc + 1) * cfg.poolSize (.tx p) := by
  have h : Spent cfg p nbTxDesc s ops := by
    have hrule := @Lts.run_observed_of State Act (Mbuf.step cfg) (fun s _ => QueueFits p nbTxDesc s)
      DriverOp driverOps (Spent cfg p nbTxDesc)
    rw [← hops, ← List.nil_append (Lts.observe ..)]
    exact hrule (fun h hfits hs => h.step hdesc hfits hs) (Spent.start cfg p nbTxDesc) hfits hrun
  refine ⟨fun mbufs s' hs m hmem => ?_, h.accepted_le⟩
  have hcall : txCtlTxBurst s p true (some mbufs) = some s' := hs
  obtain ⟨hidle, ⟨-, hnone⟩ | ⟨ms, d, -, heq, ha, -⟩⟩ := txCtlTxBurst_cases hcall
  · rcases hnone with hnone | hnone
    · cases hnone
    · cases hnone
  · cases heq
    have hm := ((h.inPlace.dpdk.allocBulk ha).1 m hmem).1
    obtain ⟨-, -, hin, -⟩ := allocBulk_refcnt ha
    have hheld : (lifeOf p m s ops).held = 0 := by
      show (s.tx p).held.count m = 0
      rw [hidle]
      rfl
    exact List.count_eq_zero.mp ((h.lives m hm).unreleased hdesc (hin m hmem).1 hheld)

/-- A burst of port 0 is accepted and freed, and the driver releases one of its
packets; the next burst makes do with the other 39. -/
def twoBursts : List Act :=
  [.txBurst 0 true (some ((List.range 32).map (MbufId.mk (.tx 0)))), .txSend 0 20, .txSend 0 12]
    ++ List.replicate 32 (.txFree 0)
    ++ [.complete ⟨.tx 0, 0⟩, .txBurst 0 true (some ((List.range' 1 32).map (MbufId.mk (.tx 0)))),
      .txSend 0 32]

theorem traffic_ends_twoBursts :
    ∃ s ops, Lts.run (Mbuf.step twoPorts) (start twoPorts) twoBursts = some s
      ∧ Lts.observe (Mbuf.step twoPorts) driverOps (start twoPorts) twoBursts = ops
      ∧ .complete ⟨.tx 0, 0⟩ ∈ ops ∧ s.dpdk.driver.count ⟨.tx 0, 1⟩ = 2
      ∧ (ops.filterMap (·.acceptedFrom (.tx 0))).length = 64
      ∧ (ops.filterMap (·.acceptedFrom (.tx 0))).length ≤ 513 * 40 := by
  have hview : (Lts.run (Mbuf.step twoPorts) (start twoPorts) twoBursts).map
      (fun s => s.dpdk.driver.count ⟨.tx 0, 1⟩) = some 2 := by
    decide +kernel
  obtain ⟨s, hrun, hcount⟩ := Option.map_eq_some_iff.mp hview
  have hfits : Lts.AllSteps (Mbuf.step twoPorts) (fun s _ => QueueFits 0 512 s) (start twoPorts)
      twoBursts := by
    decide +kernel
  obtain ⟨-, hle⟩ := traffic_ends (by decide) hfits hrun rfl
  exact ⟨s, _, hrun, rfl, by decide +kernel, hcount, by decide +kernel, hle⟩

end Runs

end PktSender.Mbuf
