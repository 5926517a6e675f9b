/-
Every received mbuf is freed once, and read before that as it was received.

# The places

An mbuf of an RX pool is in its pool, with the driver or with one thread
(`Owned.placed`), and the steps move it round: `arm`, the burst call and
`rte_pktmbuf_free`. Outside of the pool it has one reference (`Owned.refcnt`),
so a free always brings it back.

# The table

`pkts_recv` keeps what is no longer the thread's. What the thread still holds
is what lies at the indices its calls have yet to come to (`RxPc.window`), and
nobody writes to these mbufs (`Thread.Sound`).

# How many

A port is polled by one thread, and that thread holds no more than a burst. So
the driver always finds an mbuf in the pool.
-/
import PktSender.Rx.Basic
import PktSender.Lib.Places

namespace PktSender.Rx

open Launch (Ready Shared Steady lcoreStep rxPort)
open Places (Placed)
open Probe (Mbuf)
open Transmitter (Call)

-- ================================================================= the places

inductive Place where
  | pool (portid : UInt8)
  | ring (portid : UInt8)
  | lcore (lcoreid : UInt8)
deriving DecidableEq

/-- The references of an mbuf. -/
def Place.refcnt : Place → UInt16
  | .pool _ => 0
  | .ring _ => 1
  | .lcore _ => 1

/-- Its pool was created with it. -/
def Created (m : MbufId) : Prop := m.idx < nbMbufs

/-- What lies where, if this is with the threads. -/
def Dpdk.lists (d : Dpdk) (held : UInt8 → List MbufId) : Place → List MbufId
  | .pool portid => d.pool portid
  | .ring portid => d.ring portid
  | .lcore lcoreid => held lcoreid

/-- The indices of the table a thread has yet to come to. -/
def RxPc.window : RxPc → List ℕ
  | .idle => []
  | .received nbRx => List.range nbRx
  | .tracing _ cnt => List.range cnt
  | .freeing mList npkts => List.range' mList npkts

/-- The mbufs of a thread. -/
def Thread.held (t : Thread) : List MbufId := t.pc.window.filterMap t.pktsRecv

/-- They are in the table, at most a burst, and as they were received. -/
structure Thread.Sound (mem : MbufId → Mbuf) (t : Thread) : Prop where
  stored : ∀ i ∈ t.pc.window, ∃ m, t.pktsRecv i = some m ∧ t.got[i]? = some (mem m)
  burst : t.pc.window.length ≤ maxPktBurst
  ahead : ∀ i cnt, t.pc = .tracing i cnt → i ≤ cnt

/-- The mbufs are at their places, with their references, and in no pool or queue
but that of their port; a queue has its descriptors. -/
structure Stocked (d : Dpdk) (held : UInt8 → List MbufId) (place : MbufId → Place) : Prop where
  placed : Placed Created (d.lists held) place
  refcnt : ∀ m, Created m → d.refcnt m = (place m).refcnt
  pool : ∀ p, ∀ m ∈ d.pool p, m.portid = p
  ring : ∀ p, ∀ m ∈ d.ring p, m.portid = p
  room : ∀ p, (d.ring p).length ≤ rxDescDefault

section Dpdk

variable {d d' : Dpdk} {held held' : UInt8 → List MbufId} {place : MbufId → Place} {p l : UInt8}
  {m : MbufId} {got rest : List MbufId}

theorem Stocked.perm (h : Stocked d held place) (hperm : ∀ l, (held' l).Perm (held l)) :
    Stocked d held' place :=
  { h with
    placed := h.placed.perm fun i => by
      cases i with
      | pool p => exact .rfl
      | ring p => exact .rfl
      | lcore l => exact hperm l }

/-- Lists of the mbufs of their ports, and one mbuf less, or more. -/
theorem home_erase {lists : UInt8 → List MbufId} (h : ∀ q, ∀ x ∈ lists q, x.portid = q) :
    ∀ q, ∀ x ∈ Function.update lists p ((lists p).erase m) q, x.portid = q := by
  intro q x hx
  by_cases hq : q = p
  · subst hq
    rw [Function.update_self] at hx
    exact h q x (List.mem_of_mem_erase hx)
  · rw [Function.update_of_ne hq] at hx
    exact h q x hx

theorem home_cons {lists : UInt8 → List MbufId} (h : ∀ q, ∀ x ∈ lists q, x.portid = q)
    (hm : m.portid = p) :
    ∀ q, ∀ x ∈ Function.update lists p (m :: lists p) q, x.portid = q := by
  intro q x hx
  by_cases hq : q = p
  · subst hq
    rw [Function.update_self] at hx
    rcases List.mem_cons.mp hx with rfl | hx
    · exact hm
    · exact h q x hx
  · rw [Function.update_of_ne hq] at hx
    exact h q x hx

/-- A reference count where the mbuf is now. -/
theorem refcnt_move {refcnt : MbufId → UInt16} (h : ∀ x, Created x → refcnt x = (place x).refcnt)
    (j : Place) : ∀ x, Created x →
      Function.update refcnt m j.refcnt x = (Function.update place m j x).refcnt := by
  intro x hx
  by_cases hxm : x = m
  · subst hxm
    rw [Function.update_self, Function.update_self]
  · rw [Function.update_of_ne hxm, Function.update_of_ne hxm]
    exact h x hx

theorem Stocked.arm (h : Stocked d held place) (ha : d.arm p m = some d') :
    Stocked d' held (Function.update place m (.ring p)) := by
  unfold Dpdk.arm at ha
  split at ha
  next => cases ha
  next hfull =>
  split at ha
  next => cases ha
  next hmem =>
  cases ha
  have hm : m ∈ d.pool p := not_not.mp hmem
  constructor
  case placed =>
    refine h.placed.move (show m ∈ d.lists held (.pool p) from hm) nofun ?_ ?_ ?_
    · show (Function.update d.pool p _ p).Perm _
      rw [Function.update_self]
      exact .rfl
    · show (Function.update d.ring p _ p).Perm _
      rw [Function.update_self]
      exact .rfl
    · intro k hpool hring
      cases k with
      | pool q => exact Function.update_of_ne (fun heq => hpool (congrArg Place.pool heq)) _ _
      | ring q => exact Function.update_of_ne (fun heq => hring (congrArg Place.ring heq)) _ _
      | lcore l => rfl
  case refcnt => exact refcnt_move h.refcnt (.ring p)
  case pool => exact home_erase h.pool
  case ring => exact home_cons h.ring (h.pool p m hm)
  case room =>
    intro q
    show (Function.update d.ring p _ q).length ≤ _
    by_cases hq : q = p
    · subst hq
      rw [Function.update_self, List.length_cons]
      omega
    · rw [Function.update_of_ne hq]
      exact h.room q

theorem Stocked.handOver (h : Stocked d held place) (ha : d.handOver p m = some d') (l : UInt8) :
    m.portid = p ∧ Stocked d' (Function.update held l (m :: held l))
      (Function.update place m (.lcore l)) := by
  unfold Dpdk.handOver at ha
  split at ha
  next => cases ha
  next hmem =>
  cases ha
  have hm : m ∈ d.ring p := not_not.mp hmem
  have hplace : place m = .ring p := (h.placed.mem.mp (show m ∈ d.lists held (.ring p) from hm)).2
  refine ⟨h.ring p m hm, ?_⟩
  constructor
  case placed =>
    refine h.placed.move (show m ∈ d.lists held (.ring p) from hm) nofun ?_ ?_ ?_
    · show (Function.update d.ring p _ p).Perm _
      rw [Function.update_self]
      exact .rfl
    · show (Function.update held l _ l).Perm _
      rw [Function.update_self]
      exact .rfl
    · intro k hring hlcore
      cases k with
      | pool q => rfl
      | ring q => exact Function.update_of_ne (fun heq => hring (congrArg Place.ring heq)) _ _
      | lcore l' => exact Function.update_of_ne (fun heq => hlcore (congrArg Place.lcore heq)) _ _
  case refcnt =>
    -- the reference goes over with the mbuf
    intro x hx
    rw [h.refcnt x hx]
    by_cases hxm : x = m
    · subst hxm
      rw [Function.update_self, hplace]
      rfl
    · rw [Function.update_of_ne hxm]
  case pool => exact h.pool
  case ring => exact home_erase h.ring
  case room =>
    intro q
    show (Function.update d.ring p _ q).length ≤ _
    by_cases hq : q = p
    · subst hq
      rw [Function.update_self]
      exact List.length_erase_le.trans (h.room q)
    · rw [Function.update_of_ne hq]
      exact h.room q

/-- A burst call: what it returns is with the thread. -/
theorem Stocked.rxBurst (h : Stocked d held place) (l : UInt8)
    (ha : got.foldlM (Dpdk.handOver p) d = some d') :
    (∀ m ∈ got, m.portid = p)
      ∧ ∃ place', Stocked d' (Function.update held l (got.reverse ++ held l)) place' := by
  induction got generalizing d held place with
  | nil =>
      cases ha
      refine ⟨List.forall_mem_nil _, place, ?_⟩
      rw [List.reverse_nil, List.nil_append, Function.update_eq_self]
      exact h
  | cons m got ih =>
      rw [List.foldlM_cons] at ha
      obtain ⟨d₁, hm, ha⟩ := Option.bind_eq_some_iff.mp ha
      obtain ⟨hport, h₁⟩ := h.handOver hm l
      obtain ⟨hports, place', h'⟩ := ih h₁ ha
      refine ⟨List.forall_mem_cons.mpr ⟨hport, hports⟩, place', ?_⟩
      rw [Function.update_self, Function.update_idem] at h'
      rw [List.reverse_cons, List.append_assoc]
      exact h'

theorem Stocked.free (h : Stocked d held place) (hheld : held l = m :: rest) :
    Stocked (rtePktmbufFree d m) (Function.update held l rest)
      (Function.update place m (.pool m.portid)) := by
  have hm : m ∈ d.lists held (.lcore l) := by
    show m ∈ held l
    rw [hheld]
    exact List.mem_cons_self
  obtain ⟨hcreated, hplace⟩ := h.placed.mem.mp hm
  have hone : d.refcnt m - 1 = 0 := by
    rw [h.refcnt m hcreated, hplace, Place.refcnt]
    decide
  have hfree : rtePktmbufFree d m
      = { d with
          refcnt := Function.update d.refcnt m 0
          pool := Function.update d.pool m.portid (m :: d.pool m.portid) } := by
    unfold rtePktmbufFree
    simp only [hone, if_true]
  rw [hfree]
  constructor
  case placed =>
    refine h.placed.move hm nofun ?_ ?_ ?_
    · show (Function.update held l rest l).Perm ((held l).erase m)
      rw [Function.update_self, hheld, List.erase_cons_head]
    · show (Function.update d.pool m.portid _ m.portid).Perm _
      rw [Function.update_self]
      exact .rfl
    · intro k hlcore hpool
      cases k with
      | pool q => exact Function.update_of_ne (fun heq => hpool (congrArg Place.pool heq)) _ _
      | ring q => rfl
      | lcore l' => exact Function.update_of_ne (fun heq => hlcore (congrArg Place.lcore heq)) _ _
  case refcnt => exact refcnt_move h.refcnt (.pool m.portid)
  case pool => exact home_cons h.pool rfl
  case ring => exact h.ring
  case room => exact h.room

end Dpdk

-- ================================================================ the threads

section Threads

variable {mem mem' : MbufId → Mbuf} {t : Thread} {got : List MbufId} {m : MbufId}

/-- The thread holds what its table says. -/
theorem Thread.Sound.mem_held (h : t.Sound mem) {i : ℕ} (hi : i ∈ t.pc.window) :
    ∃ m ∈ t.held, t.pktsRecv i = some m ∧ t.got[i]? = some (mem m) := by
  obtain ⟨m, hm, hgot⟩ := h.stored i hi
  exact ⟨m, List.mem_filterMap.mpr ⟨i, hi, hm⟩, hm, hgot⟩

theorem Thread.Sound.length_held (h : t.Sound mem) : t.held.length ≤ maxPktBurst :=
  (List.length_filterMap_le _ _).trans h.burst

/-- Nobody else writes to its mbufs. -/
theorem Thread.Sound.congr (h : t.Sound mem) (heq : ∀ m ∈ t.held, mem' m = mem m) :
    t.Sound mem' := by
  refine ⟨fun i hi => ?_, h.burst, h.ahead⟩
  obtain ⟨m, hheld, hm, hgot⟩ := h.mem_held hi
  exact ⟨m, hm, (heq m hheld).symm ▸ hgot⟩

/-- It goes on to a place from where less is ahead of it, or as much. -/
theorem Thread.Sound.setPc (h : t.Sound mem) {pc : RxPc} (hw : pc.window.Sublist t.pc.window)
    (hahead : ∀ i cnt, pc = .tracing i cnt → i ≤ cnt) : { t with pc := pc }.Sound mem where
  stored i hi := h.stored i (hw.subset hi)
  burst := hw.length_le.trans h.burst
  ahead := hahead

/-- A table that begins with a burst. -/
theorem filterMap_received (f : ℕ → Option MbufId) :
    (List.range got.length).filterMap (fun i => (got[i]?).or (f i)) = got := by
  induction got using List.reverseRecOn with
  | nil => rfl
  | append_singleton got m ih =>
      have hinit : (List.range got.length).filterMap (fun i => ((got ++ [m])[i]?).or (f i))
          = (List.range got.length).filterMap (fun i => (got[i]?).or (f i)) := by
        refine List.filterMap_congr fun i hi => ?_
        rw [List.getElem?_append_left (List.mem_range.mp hi)]
      rw [List.length_append, List.length_singleton, List.range_succ, List.filterMap_append,
        hinit, ih]
      simp

theorem Thread.held_receive (hidle : t.pc = .idle) : (t.receive mem got).held = got := by
  unfold Thread.receive
  split
  next hzero =>
    rw [Thread.held, hidle, List.eq_nil_of_length_eq_zero hzero]
    rfl
  next => exact filterMap_received t.pktsRecv

theorem Thread.Sound.receive (h : t.Sound mem) (hlen : got.length ≤ maxPktBurst) :
    (t.receive mem got).Sound mem := by
  unfold Thread.receive
  split
  next => exact h
  next =>
    constructor
    case stored =>
      intro i hi
      have hlt : i < got.length := List.mem_range.mp hi
      refine ⟨got[i], ?_, ?_⟩
      · show (got[i]?).or (t.pktsRecv i) = _
        rw [List.getElem?_eq_getElem hlt]
        rfl
      · show (got.map mem)[i]? = _
        rw [List.getElem?_map, List.getElem?_eq_getElem hlt]
        rfl
    case burst =>
      show (List.range got.length).length ≤ _
      rwa [List.length_range]
    case ahead => exact nofun

end Threads

-- ================================================================== the system

section System

variable {c : Launch.Cfg} {s s' : System} {place : MbufId → Place} {l : UInt8}

/-- The mbufs of the threads. -/
def System.held (s : System) (lcoreid : UInt8) : List MbufId := (s.rx lcoreid).held

/-- What every step keeps. -/
structure Owned (c : Launch.Cfg) (s : System) (place : MbufId → Place) : Prop where
  ready : Ready c s.sys
  shared : Shared c s.sys
  stocked : Stocked s.dpdk s.held place
  polled : ∀ l, ∀ m ∈ s.held l, l ≠ c.statLcore ∧ m.portid ∈ (s.sys.lcoreList l).jobs .rx
  sound : ∀ l, (s.rx l).Sound s.mem
  inside : ∀ l, (s.rx l).pc ≠ .idle → ∃ k, s.sys.pc l = .rx k

/-- A step of `Launch/` leaves the mbufs. -/
theorem Owned.launch {act : Launch.Act} {sys : Launch.Sys} (h : Owned c s place)
    (hs : Launch.step c s.sys act = some sys)
    (hidle : ∀ l, act.isOf l = true → (s.rx l).pc = .idle) :
    Owned c { s with sys := sys } place := by
  have hlist := (Launch.step_cases hs).1.lcoreList
  refine ⟨h.ready.step hs, h.shared.of_lcoreList_eq hlist, h.stocked, ?_, h.sound, fun l hl => ?_⟩
  · show ∀ l, ∀ m ∈ s.held l, l ≠ c.statLcore ∧ m.portid ∈ (sys.lcoreList l).jobs .rx
    rw [hlist]
    exact h.polled
  · -- the thread that made the step is not in a call
    have hother : act.isOf l = false := by
      by_contra hof
      exact hl (hidle l (Bool.eq_true_of_not_eq_false hof))
    show ∃ k, sys.pc l = .rx k
    rw [(Launch.step_other hs hother).2.1]
    exact h.inside l hl

/-- A thread goes on in `__process_rx`. -/
theorem inside_setPc (h : Owned c s place) (hcall : (s.rx l).pc ≠ .idle) {t : Thread} :
    ∀ x, (Function.update s.rx l t x).pc ≠ .idle → ∃ k, s.sys.pc x = .rx k := by
  intro x hx
  by_cases hxl : x = l
  · subst hxl
    exact h.inside x hcall
  · rw [Function.update_of_ne hxl] at hx
    exact h.inside x hx

/-- Without a free. -/
theorem Owned.setPc (h : Owned c s place) (hcall : (s.rx l).pc ≠ .idle) {pc : RxPc}
    (hw : pc.window = (s.rx l).pc.window) (hahead : ∀ i cnt, pc = .tracing i cnt → i ≤ cnt) :
    Owned c (s.setPc l pc) place := by
  have hheld : (s.setPc l pc).held = s.held := by
    funext x
    show (Function.update s.rx l _ x).held = (s.rx x).held
    by_cases hx : x = l
    · subst hx
      rw [Function.update_self, Thread.held, Thread.held, hw]
    · rw [Function.update_of_ne hx]
  refine ⟨h.ready, h.shared, hheld ▸ h.stocked, hheld ▸ h.polled, fun x => ?_,
    inside_setPc h hcall⟩
  show (Function.update s.rx l _ x).Sound s.mem
  by_cases hx : x = l
  · subst hx
    rw [Function.update_self]
    exact (h.sound x).setPc (hw ▸ List.Sublist.refl _) hahead
  · rw [Function.update_of_ne hx]
    exact h.sound x

/-- It frees the next packet of its burst. -/
theorem Owned.free (h : Owned c s place) {mList npkts : ℕ} {m : MbufId}
    (hpc : (s.rx l).pc = .freeing mList (npkts + 1)) (hm : (s.rx l).pktsRecv mList = some m) :
    ∃ place', Owned c (({ s with dpdk := rtePktmbufFree s.dpdk m } : System).setPc l
      (.freeing (mList + 1) npkts)) place' := by
  have hhead : s.held l
      = m :: ((List.range' (mList + 1) npkts).filterMap (s.rx l).pktsRecv) := by
    show (s.rx l).pc.window.filterMap _ = _
    rw [hpc, RxPc.window, List.range'_succ, List.filterMap_cons_some hm]
  have hheld : (({ s with dpdk := rtePktmbufFree s.dpdk m } : System).setPc l
      (.freeing (mList + 1) npkts)).held
      = Function.update s.held l ((List.range' (mList + 1) npkts).filterMap (s.rx l).pktsRecv) := by
    funext x
    show (Function.update s.rx l _ x).held = _
    by_cases hx : x = l
    · subst hx
      rw [Function.update_self, Function.update_self]
      rfl
    · rw [Function.update_of_ne hx, Function.update_of_ne hx]
      rfl
  have hcall : (s.rx l).pc ≠ .idle := by
    rw [hpc]
    nofun
  refine ⟨_, h.ready, h.shared, hheld ▸ h.stocked.free hhead, ?_, fun x => ?_,
    inside_setPc h hcall⟩
  · intro x y hy
    rw [hheld] at hy
    refine h.polled x y ?_
    by_cases hx : x = l
    · subst hx
      rw [Function.update_self] at hy
      rw [hhead]
      exact List.mem_cons_of_mem _ hy
    · rwa [Function.update_of_ne hx] at hy
  · show (Function.update s.rx l _ x).Sound s.mem
    by_cases hx : x = l
    · subst hx
      rw [Function.update_self]
      refine (h.sound x).setPc ?_ nofun
      rw [hpc, RxPc.window, RxPc.window, List.range'_succ]
      exact List.sublist_cons_self _ _
    · rw [Function.update_of_ne hx]
      exact h.sound x

theorem rxPort_eq_some {sys : Launch.Sys} {p : UInt8} (h : rxPort sys l = some p) :
    sys.pc l ≠ .done ∧ p ∈ (sys.lcoreList l).jobs .rx := by
  unfold rxPort at h
  split at h
  next k hpc =>
    rw [hpc]
    exact ⟨nofun, List.mem_of_getElem? h⟩
  next => cases h

/-- After a poll the lcore is still among its RX ports. -/
theorem polled_pc {sys sys' : Launch.Sys} {p jobState : UInt8} {call : Call}
    (h : rxPort sys l = some p) (hs : lcoreStep sys l jobState call = some sys') :
    ∃ k, sys'.pc l = .rx k := by
  unfold rxPort at h
  split at h
  next k hpc =>
    unfold lcoreStep at hs
    simp only [hpc, h] at hs
    cases hs
    exact ⟨k + 1, Function.update_self ..⟩
  next => cases h

/-- A poll, with its burst call. -/
theorem Owned.poll (h : Owned c s place) {jobState : UInt8} {call : Call} {got : List MbufId}
    (hs : poll s l jobState call got = some s') : ∃ place', Owned c s' place' := by
  unfold Rx.poll at hs
  split at hs
  next => cases hs
  next hidle =>
  have hpc : (s.rx l).pc = .idle := not_not.mp hidle
  obtain ⟨sys, hsys, hs⟩ := Option.bind_eq_some_iff.mp hs
  have hlaunch : Owned c { s with sys := sys } place :=
    h.launch (show Launch.step c s.sys (.lcore l jobState call) = some sys from hsys) fun x hx => by
      obtain rfl : l = x := of_decide_eq_true hx
      exact hpc
  split at hs
  next =>
    cases hs
    exact ⟨place, hlaunch⟩
  next p hport =>
    obtain ⟨d, hd, rfl⟩ := Option.map_eq_some_iff.mp hs
    unfold rteEthRxBurst at hd
    split at hd
    next => cases hd
    next hlen =>
    obtain ⟨hgot, place', hstocked⟩ := h.stocked.rxBurst l hd
    have hempty : s.held l = [] := by
      rw [System.held, Thread.held, hpc]
      rfl
    have hheld : ∀ x, (Function.update s.rx l ((s.rx l).receive s.mem got) x).held
        = Function.update s.held l got x := by
      intro x
      by_cases hx : x = l
      · subst hx
        rw [Function.update_self, Function.update_self, Thread.held_receive hpc]
      · rw [Function.update_of_ne hx, Function.update_of_ne hx]
        rfl
    refine ⟨place', hlaunch.ready, hlaunch.shared, hstocked.perm fun x => ?_, fun x m hm => ?_,
      fun x => ?_, fun x hx => ?_⟩
    · show (Function.update s.rx l _ x).held.Perm _
      rw [hheld x, hempty, List.append_nil]
      by_cases hx : x = l
      · subst hx
        rw [Function.update_self, Function.update_self]
        exact (List.reverse_perm got).symm
      · rw [Function.update_of_ne hx, Function.update_of_ne hx]
    · replace hm : m ∈ Function.update s.held l got x := hheld x ▸ hm
      by_cases hx : x = l
      · subst hx
        rw [Function.update_self] at hm
        obtain ⟨hdone, hmem⟩ := rxPort_eq_some hport
        refine ⟨h.ready.pc x hdone, ?_⟩
        show m.portid ∈ (sys.lcoreList x).jobs .rx
        rw [(Launch.step_cases (c := c)
          (show Launch.step c s.sys (.lcore x jobState call) = some sys from hsys)).1.lcoreList,
          hgot m hm]
        exact hmem
      · rw [Function.update_of_ne hx] at hm
        exact hlaunch.polled x m hm
    · show (Function.update s.rx l _ x).Sound s.mem
      by_cases hx : x = l
      · subst hx
        rw [Function.update_self]
        exact (h.sound x).receive (Nat.le_of_not_lt hlen)
      · rw [Function.update_of_ne hx]
        exact h.sound x
    · show ∃ k, sys.pc x = .rx k
      by_cases hxl : x = l
      · subst hxl
        exact polled_pc hport hsys
      · replace hx : (Function.update s.rx l _ x).pc ≠ .idle := hx
        rw [Function.update_of_ne hxl] at hx
        exact hlaunch.inside x hx

theorem Owned.processRx (h : Owned c s place) {tid : Int32} (hs : processRx s l tid = some s') :
    ∃ place', Owned c s' place' := by
  have hcall : (s.rx l).pc ≠ .idle := by
    intro hpc
    rw [Rx.processRx, hpc] at hs
    cases hs
  unfold Rx.processRx at hs
  simp only at hs
  cases hpc : (s.rx l).pc with
  | idle => exact absurd hpc hcall
  | received nbRx =>
      simp only [hpc] at hs
      split at hs
      · cases hs
        refine ⟨place, h.setPc hcall ?_ nofun⟩
        rw [hpc, RxPc.window, RxPc.window, List.range_eq_range']
      · cases hs
        refine ⟨place, h.setPc hcall ?_ fun i cnt heq => ?_⟩
        · rw [hpc, RxPc.window, RxPc.window]
        · cases heq
          exact Nat.zero_le _
  | tracing i cnt =>
      simp only [hpc] at hs
      split at hs
      next hlt =>
        obtain ⟨m, -, rfl⟩ := Option.map_eq_some_iff.mp hs
        refine ⟨place, h.setPc hcall ?_ fun j n heq => ?_⟩
        · rw [hpc, RxPc.window, RxPc.window]
        · cases heq
          exact hlt
      next =>
        cases hs
        refine ⟨place, h.setPc hcall ?_ nofun⟩
        rw [hpc, RxPc.window, RxPc.window, List.range_eq_range']
  | freeing mList npkts =>
      cases npkts with
      | zero =>
          simp only [hpc] at hs
          cases hs
          refine ⟨place, h.setPc hcall ?_ nofun⟩
          rw [hpc]
          rfl
      | succ npkts =>
          simp only [hpc] at hs
          obtain ⟨m, hm, rfl⟩ := Option.map_eq_some_iff.mp hs
          exact h.free hpc hm

/-- The NIC and the pools write to no mbuf of a thread. -/
theorem Owned.write (h : Owned c s place) (nic : MbufId → Mbuf) : Owned c (s.write nic) place := by
  refine ⟨h.ready, h.shared, h.stocked, h.polled, fun l => (h.sound l).congr fun m hm => ?_,
    h.inside⟩
  have hlcore : m ∈ s.dpdk.lists s.held (.lcore l) := hm
  refine if_neg (not_or.mpr ⟨?_, ?_⟩)
  · exact h.stocked.placed.not_mem hlcore (j := .pool m.portid) nofun
  · exact h.stocked.placed.not_mem hlcore (j := .ring m.portid) nofun

theorem Owned.step (h : Owned c s place) {a : Act × (MbufId → Mbuf)}
    (hs : step c s a = some s') : ∃ place', Owned c s' place' := by
  obtain ⟨act, nic⟩ := a
  obtain ⟨s₁, hbase, rfl⟩ := Option.map_eq_some_iff.mp hs
  obtain ⟨place', h₁⟩ : ∃ place', Owned c s₁ place' := by
    cases act with
    | lcore l jobState call got => exact h.poll hbase
    | probe act =>
        obtain ⟨sys, hsys, rfl⟩ := Option.map_eq_some_iff.mp hbase
        exact ⟨place, h.launch hsys nofun⟩
    | call l tid => exact h.processRx hbase
    | arm p m =>
        obtain ⟨d, hd, rfl⟩ := Option.map_eq_some_iff.mp hbase
        exact ⟨_, h.ready, h.shared, h.stocked.arm hd, h.polled, h.sound, h.inside⟩
  exact ⟨place', h₁.write nic⟩

/-- The mbufs a pool was created with. -/
theorem mem_created {p : UInt8} {m : MbufId} :
    m ∈ (List.range nbMbufs).map (MbufId.mk p) ↔ Created m ∧ m.portid = p := by
  rw [List.mem_map]
  constructor
  · intro hm
    obtain ⟨idx, hidx, rfl⟩ := hm
    exact ⟨List.mem_range.mp hidx, rfl⟩
  · intro hm
    obtain ⟨hcreated, rfl⟩ := hm
    exact ⟨m.idx, List.mem_range.mpr hcreated, rfl⟩

theorem nodup_created (p : UInt8) : ((List.range nbMbufs).map (MbufId.mk p)).Nodup :=
  List.Nodup.map (fun _ _ heq => congrArg MbufId.idx heq) List.nodup_range

theorem owned_start {sys : Launch.Sys} (hstart : Launch.startUp c = some sys)
    (mem : MbufId → Mbuf) : Owned c (start sys mem) fun m => .pool m.portid := by
  refine ⟨Launch.startUp_ready hstart, Launch.startUp_shared hstart, ⟨⟨?_, ?_⟩, ?_, ?_, ?_, ?_⟩,
    fun _ => List.forall_mem_nil _, fun _ => ⟨List.forall_mem_nil _, Nat.zero_le _, nofun⟩,
    fun _ hcall => absurd rfl hcall⟩
  · intro i
    cases i with
    | pool p =>
        simp only [Dpdk.lists, start]
        exact nodup_created p
    | ring p => exact List.nodup_nil
    | lcore l => exact List.nodup_nil
  · intro i m
    cases i with
    | pool p =>
        simp only [Dpdk.lists, start, Place.pool.injEq]
        exact mem_created
    | ring p => exact iff_of_false List.not_mem_nil nofun
    | lcore l => exact iff_of_false List.not_mem_nil nofun
  · exact fun _ _ => rfl
  · intro p m hm
    simp only [start] at hm
    exact (mem_created.mp hm).2
  · exact fun _ => List.forall_mem_nil _
  · exact fun _ => Nat.zero_le _

theorem run_owned {sys : Launch.Sys} {mem : MbufId → Mbuf} {acts : List (Act × (MbufId → Mbuf))}
    (hstart : Launch.startUp c = some sys)
    (hrun : Lts.run (Rx.step c) (start sys mem) acts = some s) : ∃ place, Owned c s place :=
  Lts.run_invariant_all (I := fun s => ∃ place, Owned c s place)
    (fun h hs => h.elim fun _ h => h.step hs) ⟨_, owned_start hstart mem⟩ hrun

-- ============================================================= what follows

/-- The lcore with mbufs of a port, if there is one. -/
theorem Owned.exists_lcore (h : Owned c s place) (p : UInt8) :
    ∃ l, ∀ l', ∀ m ∈ s.held l', m.portid = p → l' = l := by
  by_cases hany : ∃ l, ∃ m ∈ s.held l, m.portid = p
  · obtain ⟨l, m, hm, rfl⟩ := hany
    obtain ⟨hl, hmem⟩ := h.polled l m hm
    refine ⟨l, fun l' m' hm' heq => ?_⟩
    obtain ⟨hl', hmem'⟩ := h.polled l' m' hm'
    exact h.shared.owner .rx m.portid l' l hl' hl (heq ▸ hmem') hmem
  · exact ⟨0, fun l' m' hm' heq => absurd ⟨l', m', hm', heq⟩ hany⟩

/-- A port never runs out of mbufs. -/
theorem Owned.le_length_pool (h : Owned c s place) (p : UInt8) :
    nbMbufs - rxDescDefault - maxPktBurst ≤ (s.dpdk.pool p).length := by
  obtain ⟨l, hl⟩ := h.exists_lcore p
  have hsub : (List.range nbMbufs).map (MbufId.mk p)
      ⊆ s.dpdk.pool p ++ (s.dpdk.ring p ++ s.held l) := by
    intro m hm
    obtain ⟨hcreated, rfl⟩ := mem_created.mp hm
    have hmem : m ∈ s.dpdk.lists s.held (place m) := h.stocked.placed.mem.mpr ⟨hcreated, rfl⟩
    cases hplace : place m with
    | pool q =>
        rw [hplace] at hmem
        exact List.mem_append_left _ ((h.stocked.pool q m hmem).symm ▸ hmem)
    | ring q =>
        rw [hplace] at hmem
        exact List.mem_append_right _
          (List.mem_append_left _ ((h.stocked.ring q m hmem).symm ▸ hmem))
    | lcore l' =>
        rw [hplace] at hmem
        exact List.mem_append_right _ (List.mem_append_right _ ((hl l' m hmem rfl) ▸ hmem))
  have hle := ((nodup_created p).subperm hsub).length_le
  have hring := h.stocked.room p
  have hheld : (s.held l).length ≤ maxPktBurst := (h.sound l).length_held
  rw [List.length_map, List.length_range, List.length_append, List.length_append] at hle
  omega

/-- What is read of a packet is what was received. -/
theorem Owned.reads (h : Owned c s place) {i cnt : ℕ} (hpc : (s.rx l).pc = .tracing i cnt)
    (hlt : i < cnt) :
    ∃ m ∈ s.held l, (s.rx l).pktsRecv i = some m ∧ (s.rx l).got[i]? = some (s.mem m) := by
  refine (h.sound l).mem_held ?_
  rw [hpc]
  exact List.mem_range.mpr hlt

/-- No call of `__process_rx` stops at a packet. -/
theorem Owned.goes_on (h : Owned c s place) (hpc : (s.rx l).pc ≠ .idle) (tid : Int32)
    (nic : MbufId → Mbuf) : ∃ s', Rx.step c s (.call l tid, nic) = some s' := by
  suffices hcall : ∃ s', Rx.processRx s l tid = some s' by
    obtain ⟨s', hs'⟩ := hcall
    exact ⟨s'.write nic, Option.map_eq_some_iff.mpr ⟨s', hs', rfl⟩⟩
  unfold Rx.processRx
  simp only
  cases heq : (s.rx l).pc with
  | idle => exact absurd heq hpc
  | received nbRx =>
      simp only
      split
      · exact ⟨_, rfl⟩
      · exact ⟨_, rfl⟩
  | tracing i cnt =>
      simp only
      split
      next hlt =>
        obtain ⟨m, -, hm, -⟩ := h.reads heq hlt
        exact ⟨_, Option.map_eq_some_iff.mpr ⟨m, hm, rfl⟩⟩
      next => exact ⟨_, rfl⟩
  | freeing mList npkts =>
      cases npkts with
      | zero => exact ⟨_, rfl⟩
      | succ npkts =>
          obtain ⟨m, hm, -⟩ := (h.sound l).stored mList (by
            rw [heq]
            exact List.mem_range'_1.mpr ⟨Nat.le_refl _, by omega⟩)
          exact ⟨_, Option.map_eq_some_iff.mpr ⟨m, hm, rfl⟩⟩

/-- An lcore that has left its loop has no mbufs. -/
theorem Owned.held_done (h : Owned c s place) (hdone : s.sys.pc l = .done) : s.held l = [] := by
  have hidle : (s.rx l).pc = .idle := by
    by_contra hcall
    obtain ⟨k, hk⟩ := h.inside l hcall
    exact nomatch hdone.symm.trans hk
  rw [System.held, Thread.held, hidle]
  rfl

/-- In every interleaving of the threads and the driver after start-up: an mbuf
of an RX pool is at one place, with no reference in its pool and with one
outside of it; the pool of a port never runs out; a packet is recorded as it
was received, from an mbuf the thread has; no call of `__process_rx` stops
before it has freed its packets; and an lcore leaves its loop without any. -/
theorem rx_owned {sys : Launch.Sys} {mem : MbufId → Mbuf} {acts : List (Act × (MbufId → Mbuf))}
    (hstart : Launch.startUp c = some sys)
    (hrun : Lts.run (Rx.step c) (start sys mem) acts = some s) :
    (∃ place, Stocked s.dpdk s.held place)
      ∧ (∀ p, nbMbufs - rxDescDefault - maxPktBurst ≤ (s.dpdk.pool p).length)
      ∧ (∀ l i cnt, (s.rx l).pc = .tracing i cnt → i < cnt →
          ∃ m ∈ s.held l, (s.rx l).pktsRecv i = some m ∧ (s.rx l).got[i]? = some (s.mem m))
      ∧ (∀ l, (s.rx l).pc ≠ .idle → ∀ tid nic, ∃ s', Rx.step c s (.call l tid, nic) = some s')
      ∧ ∀ l, s.sys.pc l = .done → s.held l = [] := by
  obtain ⟨place, h⟩ := run_owned hstart hrun
  exact ⟨⟨place, h.stocked⟩, h.le_length_pool, fun _ _ _ => h.reads, fun _ => h.goes_on,
    fun _ => h.held_done⟩

/-- What the NIC writes to an mbuf. -/
def received (n : UInt64) : Mbuf := { Probe.blankMbuf with olFlags := n }

/-- The driver has three mbufs of port 0 and hands over two of them, after which
everything with the driver is written to. -/
def twoReceived : List (Act × (MbufId → Mbuf)) :=
  [(.arm 0 ⟨0, 7⟩, fun _ => received 1), (.arm 0 ⟨0, 8⟩, fun _ => received 2),
    (.arm 0 ⟨0, 9⟩, fun _ => received 3),
    (.lcore 1 3 (.minimal 0) [], fun _ => received 3),
    (.lcore 1 3 (.minimal 0) [⟨0, 8⟩, ⟨0, 7⟩], fun _ => received 4),
    (.call 1 5, fun _ => received 5), (.call 1 5, fun _ => received 6)]

theorem rx_owned_twoReceived :
    ∃ sys s, Launch.startUp Launch.twoPorts = some sys
      ∧ Lts.run (Rx.step Launch.twoPorts) (start sys fun _ => received 0) twoReceived = some s
      ∧ (s.rx 1).pc = .tracing 1 2 ∧ 352 ≤ (s.dpdk.pool 0).length
      ∧ ∃ m ∈ s.held 1, (s.rx 1).got[1]? = some (s.mem m) := by
  have hview : ((Launch.startUp Launch.twoPorts).bind fun sys =>
      (Lts.run (Rx.step Launch.twoPorts) (start sys fun _ => received 0) twoReceived).map
        fun s => (s.rx 1).pc) = some (.tracing 1 2) := by
    decide +kernel
  obtain ⟨sys, hstart, hview⟩ := Option.bind_eq_some_iff.mp hview
  obtain ⟨s, hrun, hpc⟩ := Option.map_eq_some_iff.mp hview
  obtain ⟨-, hpool, hreads, -⟩ := rx_owned hstart hrun
  obtain ⟨m, hm, -, hgot⟩ := hreads 1 1 2 hpc (by decide)
  exact ⟨sys, s, hstart, hrun, hpc, hpool 0, m, hm, hgot⟩

end System

end PktSender.Rx
