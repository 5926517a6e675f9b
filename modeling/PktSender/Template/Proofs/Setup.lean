/-
After the set-up every mbuf of a pool holds the template.

# The template

It is constructed once: `TxCtl.construct` of what it returned is that again,
so all mbufs get the same bytes whichever comes first (`pktmbufSetupCb_eq`).

# The chain

Before 16.7 the mbufs are allocated one by one and chained; `Chain` says which
mbufs a pointer leads through, and freeing the chain visits each of them once
(`rtePktmbufFree_eq`). What freeing and allocating change in an mbuf is not
what a packet is read from (`Ready`), so the two builds leave the same packets.
-/
import PktSender.Template.Basic
import Mathlib.Data.List.Nodup

namespace PktSender.Template

open Circular (load)
open Memory (store)
open Mbuf (MbufId Pool)
open Mbuf.Bulk (RteMbuf pktmbufReset rtePktmbufHeadroom)
open Pkt (Mem pktSeqConstructPkt)
open Probe (PktSeq EtherAddr)

variable {rteHashCrc : List UInt8 → UInt32 → UInt32 → UInt32} {ctl : TxCtl} {s : Setup}
  {m : MbufId} {pkt : Packet}

-- ============================================================== the template

/-- What is copied. -/
def TxCtl.template (rteHashCrc : List UInt8 → UInt32 → UInt32 → UInt32) (ctl : TxCtl) : Mem :=
  pktSeqConstructPkt rteHashCrc ctl.txSeq 0 ctl.txSingle.hdr

/-- An mbuf with the template in it. -/
def filled (rteHashCrc : List UInt8 → UInt32 → UInt32 → UInt32) (ctl : TxCtl) (pkt : Packet) :
    Packet :=
  { pkt with
    buf := store pkt.buf pkt.dataOff.toNat (load (ctl.template rteHashCrc) 0 maxPktLen)
    pktLen := ctl.txSeq.pktLen.toUInt32
    dataLen := ctl.txSeq.pktLen }

/-- A controller from `tx_ctl_init`. -/
structure TxCtl.New (ctl : TxCtl) : Prop where
  single : ctl.txPattern = .single
  isInit : ctl.txSingle.isInit = 0

/-- The controller of a set-up that has begun. -/
def Begun (rteHashCrc : List UInt8 → UInt32 → UInt32 → UInt32) (ctl : TxCtl) (s : Setup) : Prop :=
  s.ctl = ctl ∨ s.ctl = ctl.construct rteHashCrc

theorem TxCtl.New.construct_eq (h : ctl.New) :
    ctl.construct rteHashCrc
      = { ctl with txSingle := { isInit := 1, hdr := ctl.template rteHashCrc } } :=
  if_pos h.isInit

theorem Begun.construct (hs : Begun rteHashCrc ctl s) (h : ctl.New) :
    s.ctl.construct rteHashCrc = ctl.construct rteHashCrc := by
  rcases hs with heq | heq
  · rw [heq]
  · rw [heq, h.construct_eq]
    exact if_neg (show ¬ (1 : UInt8) = 0 by decide)

/-- One mbuf. -/
theorem pktmbufSetupCb_eq (hs : Begun rteHashCrc ctl s) (h : ctl.New) :
    pktmbufSetupCb rteHashCrc s m
      = { ctl := ctl.construct rteHashCrc
          mbufs := Function.update s.mbufs m (filled rteHashCrc ctl (s.mbufs m)) } := by
  have hsingle : s.ctl.txPattern = .single := by
    rcases hs with heq | heq
    · rw [heq, h.single]
    · rw [heq, h.construct_eq, h.single]
  unfold pktmbufSetupCb
  rw [hsingle]
  simp only [hs.construct h]
  rw [h.construct_eq]
  rfl

-- ============================================================ the new build

theorem rteMempoolObjIter_eq (h : ctl.New) {mp : List MbufId} (hnodup : mp.Nodup)
    (hs : Begun rteHashCrc ctl s) :
    ∀ m, (rteMempoolObjIter rteHashCrc mp s).mbufs m
      = if m ∈ mp then filled rteHashCrc ctl (s.mbufs m) else s.mbufs m := by
  intro m
  induction mp generalizing s with
  | nil => exact (if_neg List.not_mem_nil).symm
  | cons x mp ih =>
      obtain ⟨hnew, hnodup⟩ := List.nodup_cons.mp hnodup
      have hround := @pktmbufSetupCb_eq rteHashCrc ctl s x hs h
      have hrest := @ih (pktmbufSetupCb rteHashCrc s x) hnodup (by rw [hround]; exact .inr rfl)
      rw [rteMempoolObjIter, List.foldl_cons, ← rteMempoolObjIter, hrest, hround]
      by_cases hm : m = x
      · subst hm
        rw [if_neg hnew, if_pos List.mem_cons_self]
        exact Function.update_self ..
      · simp only [Function.update_of_ne hm, List.mem_cons, hm, false_or]

-- ============================================================ the old build

/-- The mbufs a pointer leads through. -/
def Chain (mbufs : Mbufs) : Option MbufId → List MbufId → Prop
  | p, [] => p = none
  | p, m :: ms => p = some m ∧ Chain mbufs (mbufs m).next ms

/-- Other mbufs do not matter. -/
theorem Chain.congr {mbufs mbufs' : Mbufs} {p : Option MbufId} {ms : List MbufId}
    (h : Chain mbufs p ms) (heq : ∀ m ∈ ms, mbufs' m = mbufs m) : Chain mbufs' p ms := by
  induction ms generalizing p with
  | nil => exact h
  | cons m ms ih =>
      obtain ⟨hp, hms⟩ := h
      obtain ⟨hm, heq⟩ := List.forall_mem_cons.mp heq
      refine ⟨hp, ?_⟩
      rw [hm]
      exact ih hms heq

/-- A chain is freed in as many rounds as it has segments. -/
theorem rtePktmbufFree_eq {mbufs : Mbufs} {p : Option MbufId} {ms : List MbufId}
    (h : Chain mbufs p ms) (hnodup : ms.Nodup) {fuel : ℕ} (hfuel : ms.length ≤ fuel) :
    rtePktmbufFree fuel p mbufs
      = some fun m => if m ∈ ms then (mbufs m).free else mbufs m := by
  induction ms generalizing fuel p mbufs with
  | nil =>
      rw [show p = none from h]
      cases fuel with
      | zero => simp [rtePktmbufFree]
      | succ fuel => simp [rtePktmbufFree]
  | cons x ms ih =>
      obtain ⟨hp, hms⟩ := h
      obtain ⟨hnew, hnodup⟩ := List.nodup_cons.mp hnodup
      subst hp
      cases fuel with
      | zero => cases hfuel
      | succ fuel =>
          have hne : ∀ m ∈ ms, m ≠ x := fun m hm heq => hnew (heq ▸ hm)
          have hrest : Chain (Function.update mbufs x (mbufs x).free) (mbufs x).next ms :=
            hms.congr fun m hm => Function.update_of_ne (hne m hm) ..
          rw [rtePktmbufFree]
          rw [ih hrest hnodup (Nat.le_of_succ_le_succ hfuel)]
          refine congrArg some (funext fun m => ?_)
          by_cases hm : m = x
          · subst hm
            rw [if_neg hnew, if_pos List.mem_cons_self, Function.update_self]
          · simp only [Function.update_of_ne hm, List.mem_cons, hm, false_or]

/-- An mbuf that is allocated, chained and filled. -/
def handed (rteHashCrc : List UInt8 → UInt32 → UInt32 → UInt32) (ctl : TxCtl) (pkt : Packet)
    (next : Option MbufId) : Packet :=
  filled rteHashCrc ctl
    { pktmbufReset { pkt.toRteMbuf with refcnt := 1 } with
      next := next, pktLen := 0, dataLen := 0, buf := pkt.buf }

theorem allocRound_eq (hs : Begun rteHashCrc ctl s) (h : ctl.New) (mm : Option MbufId) :
    allocRound rteHashCrc (s, mm) m
      = ({ ctl := ctl.construct rteHashCrc
           mbufs := Function.update s.mbufs m (handed rteHashCrc ctl (s.mbufs m) mm) },
          some m) := by
  have hbegun : Begun rteHashCrc ctl ((rtePktmbufAlloc s m).write m
      { (rtePktmbufAlloc s m).mbufs m with next := mm }) := hs
  unfold allocRound
  simp only
  rw [pktmbufSetupCb_eq hbegun h]
  simp only [rtePktmbufAlloc, Setup.write, Function.update_self, Function.update_idem]
  rfl

/-- What the loop leaves: a chain through the mbufs of the pool, the last one
first, and each of them filled. -/
theorem allocLoop (h : ctl.New) {mp : List MbufId} (hnodup : mp.Nodup) {mm : Option MbufId}
    {chained : List MbufId} (hs : Begun rteHashCrc ctl s) (hchain : Chain s.mbufs mm chained)
    (hapart : ∀ m ∈ mp, m ∉ chained) :
    ∃ s' mm', mp.foldl (allocRound rteHashCrc) (s, mm) = (s', mm')
      ∧ Chain s'.mbufs mm' (mp.reverse ++ chained)
      ∧ (∀ m ∈ mp, ∃ next, s'.mbufs m = handed rteHashCrc ctl (s.mbufs m) next)
      ∧ ∀ m ∉ mp, s'.mbufs m = s.mbufs m := by
  induction mp generalizing s mm chained with
  | nil => exact ⟨s, mm, rfl, hchain, List.forall_mem_nil _, fun _ _ => rfl⟩
  | cons x mp ih =>
      obtain ⟨hnew, hnodup⟩ := List.nodup_cons.mp hnodup
      obtain ⟨hx, hapart⟩ := List.forall_mem_cons.mp hapart
      have hround := @allocRound_eq rteHashCrc ctl s x hs h mm
      generalize hs₁ : Setup.mk (ctl.construct rteHashCrc)
        (Function.update s.mbufs x (handed rteHashCrc ctl (s.mbufs x) mm)) = s₁ at hround
      have hself : s₁.mbufs x = handed rteHashCrc ctl (s.mbufs x) mm := by
        rw [← hs₁]
        exact Function.update_self ..
      have hother : ∀ m, m ≠ x → s₁.mbufs m = s.mbufs m := by
        intro m hm
        rw [← hs₁]
        exact Function.update_of_ne hm ..
      have hchain₁ : Chain s₁.mbufs (some x) (x :: chained) := by
        refine ⟨rfl, ?_⟩
        rw [hself]
        exact hchain.congr fun m hm => hother m fun heq => hx (heq ▸ hm)
      have hapart₁ : ∀ m ∈ mp, m ∉ x :: chained := by
        intro m hm hmem
        rcases List.mem_cons.mp hmem with rfl | hmem
        · exact hnew hm
        · exact hapart m hm hmem
      obtain ⟨s', mm', hloop, hchain', hmp, hrest⟩ :=
        ih hnodup (.inr (by rw [← hs₁])) hchain₁ hapart₁
      refine ⟨s', mm', ?_, ?_, ?_, ?_⟩
      · rw [List.foldl_cons, hround]
        exact hloop
      · rw [List.reverse_cons, List.append_assoc]
        exact hchain'
      · refine List.forall_mem_cons.mpr ⟨⟨mm, ?_⟩, fun m hm => ?_⟩
        · rw [hrest x hnew, hself]
        · obtain ⟨next, hnext⟩ := hmp m hm
          rw [hother m fun heq => hnew (heq ▸ hm)] at hnext
          exact ⟨next, hnext⟩
      · intro m hm
        rw [List.mem_cons, not_or] at hm
        rw [hrest m hm.2, hother m hm.1]

-- ================================================================ the packets

/-- An mbuf as `rte_pktmbuf_pool_create` leaves it, with room for a packet. -/
structure Blank (pkt : Packet) : Prop where
  dataOff : pkt.dataOff = rtePktmbufHeadroom
  room : rtePktmbufHeadroom.toNat + maxPktLen ≤ pkt.bufLen.toNat

/-- An mbuf with a packet of a sequence in it. -/
structure Ready (seq : PktSeq) (template : Mem) (pkt : Packet) : Prop extends Blank pkt where
  pktLen : pkt.pktLen = seq.pktLen.toUInt32
  dataLen : pkt.dataLen = seq.pktLen
  data : ∀ i < maxPktLen, pkt.buf (pkt.dataOff.toNat + i) = template i

/-- The headroom there is is what `__pktmbuf_reset` goes back to. -/
theorem Blank.reset_dataOff {pkt : RteMbuf}
    (room : rtePktmbufHeadroom.toNat + maxPktLen ≤ pkt.bufLen.toNat) :
    (pktmbufReset pkt).dataOff = rtePktmbufHeadroom :=
  if_pos (UInt16.le_iff_toNat_le.mpr (by omega))

theorem Blank.filled (h : Blank pkt) :
    Ready ctl.txSeq (ctl.template rteHashCrc) (filled rteHashCrc ctl pkt) where
  dataOff := h.dataOff
  room := h.room
  pktLen := rfl
  dataLen := rfl
  data i hi := by
    have hlen : i < (load (ctl.template rteHashCrc) 0 maxPktLen).length := by
      rwa [Circular.load_length]
    show store pkt.buf pkt.dataOff.toNat _ (pkt.dataOff.toNat + i) = _
    rw [Memory.store_inside hlen, Circular.load_getElem, Nat.zero_add]

theorem Blank.handed (h : Blank pkt) (next : Option MbufId) :
    Ready ctl.txSeq (ctl.template rteHashCrc) (handed rteHashCrc ctl pkt next) :=
  Blank.filled ⟨Blank.reset_dataOff h.room, h.room⟩

/-- Freeing an mbuf leaves its packet. -/
theorem Ready.free {seq : PktSeq} {template : Mem} (h : Ready seq template pkt) :
    Ready seq template pkt.free :=
  { dataOff := h.dataOff, room := h.room, pktLen := h.pktLen, dataLen := h.dataLen
    data := h.data }

/-- Either build fills the pool, and writes to nothing else. -/
theorem txCtlSetupMempool_spec (h : ctl.New) {old : Bool} {mp : List MbufId} {mbufs : Mbufs}
    (hnodup : mp.Nodup) (hblank : ∀ m ∈ mp, Blank (mbufs m)) :
    ∃ s', txCtlSetupMempool rteHashCrc old mp { ctl := ctl, mbufs := mbufs } = some s'
      ∧ (∀ m ∈ mp, Ready ctl.txSeq (ctl.template rteHashCrc) (s'.mbufs m))
      ∧ ∀ m ∉ mp, s'.mbufs m = mbufs m := by
  have hbegun : Begun rteHashCrc ctl { ctl := ctl, mbufs := mbufs } := .inl rfl
  cases old with
  | false =>
      have hiter := rteMempoolObjIter_eq h hnodup hbegun
      refine ⟨_, rfl, fun m hm => ?_, fun m hm => ?_⟩
      · rw [hiter m, if_pos hm]
        exact (hblank m hm).filled
      · rw [hiter m, if_neg hm]
  | true =>
      obtain ⟨s', mm', hloop, hchain, hmp, hrest⟩ :=
        @allocLoop rteHashCrc ctl _ h mp hnodup none [] hbegun rfl fun _ _ => List.not_mem_nil
      rw [List.append_nil] at hchain
      have hfree := rtePktmbufFree_eq hchain (List.nodup_reverse.mpr hnodup)
        (List.length_reverse.le)
      refine ⟨{ s' with
          mbufs := fun m => if m ∈ mp.reverse then (s'.mbufs m).free else s'.mbufs m },
        ?_, fun m hm => ?_, fun m hm => ?_⟩
      · unfold txCtlSetupMempool
        simp only [Bool.not_true, Bool.false_eq_true, if_false, hloop]
        rw [hfree, Option.map_some]
      · obtain ⟨next, hnext⟩ := hmp m hm
        simp only [List.mem_reverse, if_pos hm]
        refine Ready.free ?_
        rw [hnext]
        exact (hblank m hm).handed next
      · simp only [List.mem_reverse, if_neg hm]
        exact hrest m hm

-- ================================================================== all ports

section Ports

variable {g : Global} {mac : UInt8 → EtherAddr} {old : Bool} {pool : UInt8 → List MbufId}

/-- The controller of a port, as it is set up. -/
def portCtl (g : Global) (mac : UInt8 → EtherAddr) (portid : UInt8) : TxCtl :=
  txCtlInit g (mac portid)

theorem portCtl_new (hg : g.txPattern = .single) (portid : UInt8) : (portCtl g mac portid).New :=
  ⟨hg, rfl⟩

/-- Each pool is set up with the controller of its port, and stays so when the
other ports come. -/
theorem setupPorts_spec (hg : g.txPattern = .single) {ports : List UInt8}
    (hports : ports.Nodup) (hnodup : ∀ p ∈ ports, (pool p).Nodup)
    (hpool : ∀ p ∈ ports, ∀ m ∈ pool p, m.pool = .tx p) {mbufs : Mbufs}
    (hblank : ∀ p ∈ ports, ∀ m ∈ pool p, Blank (mbufs m)) :
    ∃ mbufs', setupPorts rteHashCrc g mac old pool ports mbufs = some mbufs'
      ∧ (∀ p ∈ ports, ∀ m ∈ pool p, Ready (portCtl g mac p).txSeq
          ((portCtl g mac p).template rteHashCrc) (mbufs' m))
      ∧ ∀ m, (∀ p ∈ ports, m ∉ pool p) → mbufs' m = mbufs m := by
  induction ports generalizing mbufs with
  | nil => exact ⟨mbufs, rfl, List.forall_mem_nil _, fun _ _ => rfl⟩
  | cons p ports ih =>
      obtain ⟨hnew, hports⟩ := List.nodup_cons.mp hports
      obtain ⟨hnodup₁, hnodup⟩ := List.forall_mem_cons.mp hnodup
      obtain ⟨hpool₁, hpool⟩ := List.forall_mem_cons.mp hpool
      obtain ⟨hblank₁, hblank⟩ := List.forall_mem_cons.mp hblank
      obtain ⟨s, hsetup, hready, hrest⟩ := @txCtlSetupMempool_spec rteHashCrc _
        (@portCtl_new g mac hg p) old (pool p) mbufs hnodup₁ hblank₁
      -- the pools of different ports have no mbuf in common
      have hapart : ∀ q ∈ ports, ∀ m ∈ pool q, m ∉ pool p := by
        intro q hq m hm hmem
        have heq := (hpool q hq m hm).symm.trans (hpool₁ m hmem)
        exact hnew (Pool.tx.inj heq ▸ hq)
      obtain ⟨mbufs', hloop, hready', hrest'⟩ := @ih hports hnodup hpool s.mbufs
        fun q hq m hm => by
          rw [hrest m (hapart q hq m hm)]
          exact hblank q hq m hm
      refine ⟨mbufs', ?_, ?_, fun m hm => ?_⟩
      · rw [setupPorts, List.foldlM_cons]
        show ((txCtlSetupMempool rteHashCrc old (pool p)
          { ctl := portCtl g mac p, mbufs := mbufs }).map (·.mbufs)).bind _ = _
        rw [hsetup]
        exact hloop
      · refine List.forall_mem_cons.mpr ⟨fun m hm => ?_, hready'⟩
        rw [hrest' m fun q hq hmem => hapart q hq m hmem hm]
        exact hready m hm
      · obtain ⟨hm₁, hm⟩ := List.forall_mem_cons.mp hm
        rw [hrest' m hm, hrest m hm₁]

end Ports

end PktSender.Template
