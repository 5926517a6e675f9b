/-
The whole program keeps the rate of every port.

# The data bursts of a port

Any lcore may transmit on any port its list names, and may never come back
from `__send_burst`. What is seen of a port along a run (`dataBurst`) is every
burst it is given on its data queue, the one that does not return included.

# Why they are spaced

A burst that returns leaves `rate_next_cycles` at the end of what it costs.
After one that does not, the port's only lcore is stuck in it, and no other
lcore has the port (`Ready`, `owner_unique`): nothing follows. Either way the
next burst comes late enough (`Paced`), so the bursts of a port are spaced by
their costs in whatever order the threads run (`run_rate`). What a byte costs is
the exact quotient, not the double, and `Fits` keeps the sum from wrapping.
-/
import Mathlib.Algebra.Group.Nat.Defs
import PktSender.Launch.Proofs.Queues
import PktSender.Port.Proofs.Control

namespace PktSender.Launch

open Port (Job portIsEnabled portInit portStart rxqRx txqTx txqLatency)
open Transmitter (Call TxCtl Return txCtlTxBurst txCtlTxBurst_cases)
open PktSender.Lib

variable {c : Cfg} {s s' : Sys} {a : Act} {p : UInt8}

-- ============================================================= the bursts

/-- The burst of a call of `tx_ctl_tx_burst`, whether or not the call returns. -/
def dueBurst (ctl : TxCtl) (call : Call) : Option Transmitter.Burst :=
  if ctl.rateNextCycles ≥ call.cycles then none
  else call.mbufs.map fun mbufs => { cycles := call.cycles, pkts := mbufs.toList }

/-- The port of the call of `port_transmit` an lcore makes next, if it makes
one. -/
def txPort (s : Sys) (lcoreid : UInt8) : Option UInt8 :=
  match s.pc lcoreid with
  | .tx k => ((s.lcoreList lcoreid).jobs .tx)[k]?
  | _ => none

/-- The burst of a step on the data queue of a port. -/
def dataBurst (p : UInt8) (s : Sys) : Act → List Transmitter.Burst
  | .lcore lcoreid _ call =>
      if txPort s lcoreid = some p then (dueBurst (s.ports.portList p).txCtl call).toList
      else []
  | .probe _ => []

/-- What was sent is what was due. -/
theorem sent_eq_dueBurst {ctl : TxCtl} {call : Call} {r : Return}
    (h : txCtlTxBurst ctl call = some r) : r.sent = dueBurst ctl call := by
  unfold txCtlTxBurst at h
  unfold dueBurst
  split at h
  case isTrue hwait =>
    cases h
    rw [if_pos hwait]
  case isFalse hdue =>
    rw [if_neg hdue]
    split at h
    case h_1 hnone =>
      cases h
      rw [hnone]
      rfl
    case h_2 mbufs hmbufs =>
      obtain ⟨_, -, rfl⟩ := Option.map_eq_some_iff.mp h
      rw [hmbufs]
      rfl

/-- A call that does not return has a burst. -/
theorem dueBurst_of_none {ctl : TxCtl} {call : Call} (h : txCtlTxBurst ctl call = none) :
    ∃ b, dueBurst ctl call = some b := by
  unfold txCtlTxBurst at h
  unfold dueBurst
  split at h
  case isTrue => cases h
  case isFalse hdue =>
    rw [if_neg hdue]
    split at h
    case h_1 => cases h
    case h_2 mbufs hmbufs =>
      rw [hmbufs]
      exact ⟨_, rfl⟩

/-- A burst comes after the time in `rate_next_cycles`. -/
theorem lt_of_dueBurst {ctl : TxCtl} {call : Call} {b : Transmitter.Burst}
    (h : dueBurst ctl call = some b) : ctl.rateNextCycles < b.cycles := by
  unfold dueBurst at h
  split at h
  case isTrue => cases h
  case isFalse hdue =>
    obtain ⟨mbufs, -, rfl⟩ := Option.map_eq_some_iff.mp h
    exact UInt64.not_le.mp hdue

theorem lengthsOk_of_dueBurst {ctl : TxCtl} {call : Call} {b : Transmitter.Burst}
    (h : dueBurst ctl call = some b) (hlen : ∀ pkt ∈ b.pkts, pkt.pktLen ≤ 65535) :
    call.LengthsOk := by
  intro mbufs hmbufs
  unfold dueBurst at h
  split at h
  case isTrue => cases h
  case isFalse =>
    rw [hmbufs] at h
    cases h
    exact hlen

-- ============================================================== one step

theorem txPort_eq_some {lcoreid : UInt8} (h : txPort s lcoreid = some p) :
    ∃ k, s.pc lcoreid = .tx k ∧ ((s.lcoreList lcoreid).jobs .tx)[k]? = some p := by
  unfold txPort at h
  split at h
  case h_1 k hpc => exact ⟨k, hpc, h⟩
  case h_2 => cases h

/-- What a step leaves of the data queues that calls no `port_transmit`. -/
structure Quiet (s s' : Sys) : Prop where
  ports : s'.ports = s.ports
  lcoreList : s'.lcoreList = s.lcoreList
  sending : ∀ l, s.pc l = .sending → s'.pc l = .sending
  bursts : ∀ q, s'.bursts.count (.tx q txqTx) = s.bursts.count (.tx q txqTx)

/-- An lcore that is not stuck moves on. -/
theorem setPc_quiet {s₁ : Sys} {lcoreid : UInt8} (hpc : s.pc lcoreid ≠ .sending) (pc : Pc)
    (hports : s₁.ports = s.ports) (hlist : s₁.lcoreList = s.lcoreList) (hsame : s₁.pc = s.pc)
    (hbursts : ∀ q, s₁.bursts.count (.tx q txqTx) = s.bursts.count (.tx q txqTx)) :
    Quiet s (s₁.setPc lcoreid pc) where
  ports := hports
  lcoreList := hlist
  sending := by
    intro l hl
    have hne : l ≠ lcoreid := by
      rintro rfl
      exact hpc hl
    show Function.update s₁.pc lcoreid pc l = .sending
    rw [Function.update_of_ne hne, hsame, hl]
  bursts := hbursts

/-- What a step is for the data queues: a call of `port_transmit` by an lcore
for a port of its list, or nothing. -/
theorem step_txPort (hr : Ready c s) (h : step c s a = some s') :
    (∃ lcoreid jobState call k q, a = .lcore lcoreid jobState call ∧ s.pc lcoreid = .tx k ∧
      txPort s lcoreid = some q ∧ q ∈ (s.lcoreList lcoreid).jobs .tx ∧
      s' = portTransmit s lcoreid k q call) ∨
    (Quiet s s' ∧ ∀ q, dataBurst q s a = []) := by
  cases a with
  | lcore lcoreid jobState call =>
      have hstep : lcoreStep s lcoreid jobState call = some s' := h
      cases htx : txPort s lcoreid with
      | some q =>
          left
          obtain ⟨k, hpc, hk⟩ := txPort_eq_some htx
          refine ⟨lcoreid, jobState, call, k, q, rfl, hpc, htx, List.mem_of_getElem? hk, ?_⟩
          simp only [lcoreStep, hpc, hk] at hstep
          exact (Option.some.inj hstep).symm
      | none =>
          refine .inr ⟨?_, fun q => if_neg (by rw [htx]; simp)⟩
          have hmove : ∀ pc, s.pc lcoreid ≠ .sending → Quiet s (s.setPc lcoreid pc) :=
            fun pc hpc => setPc_quiet hpc pc rfl rfl rfl fun _ => rfl
          unfold lcoreStep at hstep
          simp only at hstep
          cases hpc : s.pc lcoreid with
          | head =>
              rw [hpc] at hstep
              simp only at hstep
              split at hstep <;> exact Option.some.inj hstep ▸ hmove _ (by simp [hpc])
          | rx k =>
              rw [hpc] at hstep
              simp only at hstep
              cases hport : ((s.lcoreList lcoreid).jobs .rx)[k]? with
              | some q =>
                  rw [hport] at hstep
                  obtain rfl := Option.some.inj hstep
                  refine setPc_quiet (by simp [hpc]) _ rfl rfl rfl fun q' => ?_
                  exact List.count_cons_of_ne (by simp)
              | none =>
                  rw [hport] at hstep
                  simp only at hstep
                  split at hstep <;> exact Option.some.inj hstep ▸ hmove _ (by simp [hpc])
          | tx k =>
              -- behind the last port of the list
              have hport : ((s.lcoreList lcoreid).jobs .tx)[k]? = none := by
                rw [txPort, hpc] at htx
                exact htx
              rw [hpc] at hstep
              simp only [hport] at hstep
              exact Option.some.inj hstep ▸ hmove _ (by simp [hpc])
          | sending =>
              rw [hpc] at hstep
              cases hstep
          | done =>
              rw [hpc] at hstep
              cases hstep
  | probe act =>
      obtain ⟨probe, hprobe, rfl⟩ := Option.map_eq_some_iff.mp h
      refine .inr ⟨⟨rfl, rfl, fun _ => id, fun q => ?_⟩, fun _ => rfl⟩
      -- the probe has a queue of its own
      show (probeBurst s.probe act ++ s.bursts).count _ = _
      rw [List.count_append, List.count_eq_zero.mpr, Nat.zero_add]
      intro hmem
      unfold probeBurst at hmem
      split at hmem
      case h_1 =>
        split at hmem
        case h_1 i hpc =>
          have hburst := List.mem_singleton.mp hmem
          have hqueue := (hr.probeCtl i (hr.probePc i hpc)).2
          rw [hqueue] at hburst
          cases hburst
        case h_2 => cases hmem
      case h_2 => cases hmem

/-- What a call of `port_transmit` leaves of the other ports and lcores. -/
structure Elsewhere (lcoreid q : UInt8) (s s' : Sys) : Prop where
  lcoreList : s'.lcoreList = s.lcoreList
  txCtl : ∀ p, p ≠ q → (s'.ports.portList p).txCtl = (s.ports.portList p).txCtl
  sending : ∀ l, l ≠ lcoreid → s'.pc l = s.pc l
  bursts : ∀ p, p ≠ q → s'.bursts.count (.tx p txqTx) = s.bursts.count (.tx p txqTx)

theorem portTransmit_elsewhere (s : Sys) (lcoreid q : UInt8) (k : ℕ) (call : Call) :
    Elsewhere lcoreid q s (portTransmit s lcoreid k q call) := by
  have hother : ∀ p, p ≠ q → ∀ queueid (bursts : List Burst),
      ((.tx q queueid :: bursts : List Burst)).count (.tx p txqTx)
        = bursts.count (.tx p txqTx) := by
    intro p hp queueid bursts
    apply List.count_cons_of_ne
    intro heq
    exact hp (Burst.tx.inj heq).1.symm
  unfold portTransmit
  simp only
  split
  case h_1 =>
    exact ⟨rfl, fun _ _ => rfl, fun l hl => Function.update_of_ne hl _ _,
      fun p hp => hother p hp _ _⟩
  case h_2 r hr =>
    refine ⟨?_, fun p hp => ?_, fun l hl => ?_, fun p hp => ?_⟩
    · split <;> rfl
    · split <;> simp [Sys.setPc, Sys.burst, Port.State.setPort, Function.update_of_ne hp]
    · split <;> exact Function.update_of_ne hl _ _
    · split
      · exact hother p hp _ _
      · rfl

/-- What it does to its own port: the data burst is recorded; it returned, or
the lcore is stuck. -/
theorem portTransmit_own {lcoreid : UInt8} {k : ℕ} {call : Call}
    (hqueue : (s.ports.portList p).txCtl.queueid = txqTx) :
    (portTransmit s lcoreid k p call).bursts.count (.tx p txqTx)
        = s.bursts.count (.tx p txqTx)
          + (dueBurst (s.ports.portList p).txCtl call).toList.length
      ∧ ((∃ r, txCtlTxBurst (s.ports.portList p).txCtl call = some r
            ∧ ((portTransmit s lcoreid k p call).ports.portList p).txCtl = r.ctl)
        ∨ (((portTransmit s lcoreid k p call).ports.portList p).txCtl
              = (s.ports.portList p).txCtl
            ∧ (dueBurst (s.ports.portList p).txCtl call).isSome
            ∧ (portTransmit s lcoreid k p call).pc lcoreid = .sending)) := by
  unfold portTransmit
  simp only
  rw [hqueue]
  split
  case h_1 hnone =>
    obtain ⟨b, hb⟩ := dueBurst_of_none hnone
    rw [hb]
    refine ⟨List.count_cons_self, .inr ⟨rfl, rfl, ?_⟩⟩
    exact Function.update_self ..
  case h_2 r hr =>
    rw [← sent_eq_dueBurst hr]
    refine ⟨?_, .inl ⟨r, hr, ?_⟩⟩
    · cases hsent : r.sent with
      | none => rfl
      | some b => exact List.count_cons_self
    · split <;> simp [Sys.setPc, Sys.burst, Port.State.setPort]

-- ============================================================= the invariant

/-- Cycles for one byte on a data queue. -/
def Cfg.cyclesPerByte (c : Cfg) : ℚ := c.global.cyclesPerByte txqTx

/-- A burst of packets of 16-bit lengths, whose end can be counted in 64 bits. -/
structure Fits (c : Cfg) (b : Transmitter.Burst) : Prop where
  lengths : ∀ pkt ∈ b.pkts, pkt.pktLen ≤ 65535
  paidUntil : b.paidUntil c.cyclesPerByte < 2 ^ 64

/-- The data bursts of a port so far, in a state of the program. -/
structure Paced (c : Cfg) (p : UInt8) (s : Sys) (bs : List Transmitter.Burst) : Prop
    extends Ready c s where
  owner : ∀ l l', l ≠ c.statLcore → l' ≠ c.statLcore → p ∈ (s.lcoreList l).jobs .tx →
    p ∈ (s.lcoreList l').jobs .tx → l = l'
  idle : ∀ l, l ≠ c.statLcore → p ∈ (s.lcoreList l).jobs .tx →
    (s.ports.portList p).txCtl.Idle c.cyclesPerByte
  spaced : Spaced (fun b : Transmitter.Burst => (b.cycles.toNat : ℚ))
    (fun b => b.wireSize * c.cyclesPerByte) bs
  due : ∀ b ∈ bs.getLast?,
    (s.ports.portList p).txCtl.rateNextCycles.toNat = b.paidUntil c.cyclesPerByte ∨
      ∃ l, l ≠ c.statLcore ∧ p ∈ (s.lcoreList l).jobs .tx ∧ s.pc l = .sending
  count : s.bursts.count (.tx p txqTx) = bs.length

variable {bs : List Transmitter.Burst}

theorem Paced.quiet (hp : Paced c p s bs) (hr : Ready c s') (h : Quiet s s') :
    Paced c p s' bs where
  toReady := hr
  owner := by
    rw [h.lcoreList]
    exact hp.owner
  idle := by
    rw [h.lcoreList, h.ports]
    exact hp.idle
  spaced := hp.spaced
  due := by
    intro b hb
    rw [h.lcoreList, h.ports]
    refine (hp.due b hb).imp id fun hstuck => ?_
    obtain ⟨l, hl, hmem, hpc⟩ := hstuck
    exact ⟨l, hl, hmem, h.sending l hpc⟩
  count := (h.bursts p).trans hp.count

/-- A transmission on another port. -/
theorem Paced.elsewhere {lcoreid q : UInt8} (hp : Paced c p s bs) (hr : Ready c s')
    (h : Elsewhere lcoreid q s s') (hne : p ≠ q) (hpc : s.pc lcoreid ≠ .sending) :
    Paced c p s' bs where
  toReady := hr
  owner := by
    rw [h.lcoreList]
    exact hp.owner
  idle := by
    rw [h.lcoreList, h.txCtl p hne]
    exact hp.idle
  spaced := hp.spaced
  due := by
    intro b hb
    rw [h.lcoreList, h.txCtl p hne]
    refine (hp.due b hb).imp id fun hstuck => ?_
    obtain ⟨l, hl, hmem, hsending⟩ := hstuck
    refine ⟨l, hl, hmem, ?_⟩
    rw [h.sending l fun heq => hpc (heq ▸ hsending), hsending]
  count := (h.bursts p hne).trans hp.count

/-- A transmission on the port: the last burst was paid for, since its lcore is
not stuck. -/
theorem Paced.own {lcoreid : UInt8} {k : ℕ} {call : Call} (hp : Paced c p s bs)
    (hr : Ready c (portTransmit s lcoreid k p call)) (hpc : s.pc lcoreid = .tx k)
    (hmem : p ∈ (s.lcoreList lcoreid).jobs .tx)
    (hfit : ∀ b ∈ dueBurst (s.ports.portList p).txCtl call, Fits c b) :
    Paced c p (portTransmit s lcoreid k p call)
      (bs ++ (dueBurst (s.ports.portList p).txCtl call).toList) := by
  have hstat : lcoreid ≠ c.statLcore := hp.pc lcoreid (by simp [hpc])
  have hidle := hp.idle lcoreid hstat hmem
  have helse := portTransmit_elsewhere s lcoreid p k call
  obtain ⟨hcount, hout⟩ := @portTransmit_own s p lcoreid k call (hp.queueid p)
  have hpaid : ∀ b ∈ bs.getLast?,
      (s.ports.portList p).txCtl.rateNextCycles.toNat = b.paidUntil c.cyclesPerByte := by
    intro b hb
    rcases hp.due b hb with hpaid | ⟨l, hl, hlmem, hsending⟩
    · exact hpaid
    · rw [hp.owner l lcoreid hl hstat hlmem hmem, hpc] at hsending
      cases hsending
  cases hdue : dueBurst (s.ports.portList p).txCtl call with
  | none =>
      have hctl : ((portTransmit s lcoreid k p call).ports.portList p).txCtl
          = (s.ports.portList p).txCtl := by
        rcases hout with ⟨r, hcall, hctl⟩ | ⟨-, hsome, -⟩
        · rw [hctl]
          exact Transmitter.txCtlTxBurst_unsent hcall ((sent_eq_dueBurst hcall).trans hdue)
        · rw [hdue] at hsome
          cases hsome
      rw [hdue] at hcount
      rw [Option.toList_none, List.append_nil]
      exact
        { toReady := hr
          owner := helse.lcoreList ▸ hp.owner
          idle := by
            rw [helse.lcoreList, hctl]
            exact hp.idle
          spaced := hp.spaced
          due := fun b hb => .inl (hctl ▸ hpaid b hb)
          count := hcount.trans hp.count }
  | some b =>
      have hlt := lt_of_dueBurst hdue
      have hlater : ∀ b' ∈ bs.getLast?, (b'.cycles.toNat : ℚ) + b'.wireSize * c.cyclesPerByte
          < b.cycles.toNat := by
        intro b' hb'
        apply Transmitter.Burst.lt_of_paidUntil_lt
        rw [← hpaid b' hb']
        exact UInt64.lt_iff_toNat_lt.mp hlt
      have hfits := hfit b (by rw [hdue]; rfl)
      -- the controller after a call that returns
      have hafter : ∀ r, txCtlTxBurst (s.ports.portList p).txCtl call = some r →
          r.ctl.Idle c.cyclesPerByte
            ∧ r.ctl.rateNextCycles.toNat = b.paidUntil c.cyclesPerByte := by
        intro r hcall
        have hsent := (sent_eq_dueBurst hcall).trans hdue
        rcases txCtlTxBurst_cases hcall hidle (lengthsOk_of_dueBurst hdue hfits.lengths) with
          ⟨hnone, -⟩ | ⟨-, b', hb', -, hidle', hnext⟩
        · rw [hsent] at hnone
          cases hnone
        · rw [hsent] at hb'
          cases hb'
          exact ⟨hidle', hnext hfits.paidUntil⟩
      rw [hdue] at hcount hout
      exact
        { toReady := hr
          owner := helse.lcoreList ▸ hp.owner
          idle := by
            rw [helse.lcoreList]
            intro l hl hlmem
            rcases hout with ⟨r, hcall, hctl⟩ | ⟨hctl, -, -⟩
            · rw [hctl]
              exact (hafter r hcall).1
            · rw [hctl]
              exact hp.idle l hl hlmem
          spaced := hp.spaced.concat hlater
          due := by
            intro b' hb'
            rw [Option.toList_some, List.getLast?_concat] at hb'
            cases hb'
            rcases hout with ⟨r, hcall, hctl⟩ | ⟨-, -, hsending⟩
            · rw [hctl]
              exact .inl (hafter r hcall).2
            · rw [helse.lcoreList]
              exact .inr ⟨lcoreid, hstat, hmem, hsending⟩
          count := by rw [hcount, hp.count, List.length_append] }

/-- One step of the program. -/
theorem Paced.step (hp : Paced c p s bs) (h : Launch.step c s a = some s')
    (hfit : ∀ b ∈ dataBurst p s a, Fits c b) : Paced c p s' (bs ++ dataBurst p s a) := by
  have hr := hp.toReady.step h
  rcases step_txPort hp.toReady h with
    ⟨lcoreid, jobState, call, k, q, rfl, hpc, htx, hmem, rfl⟩ | ⟨hquiet, hnone⟩
  · by_cases hq : q = p
    · subst hq
      have hbursts : dataBurst q s (.lcore lcoreid jobState call)
          = (dueBurst (s.ports.portList q).txCtl call).toList := if_pos htx
      rw [hbursts] at hfit ⊢
      exact hp.own hr hpc hmem fun b hb => hfit b (Option.mem_toList.mpr hb)
    · have hbursts : dataBurst p s (.lcore lcoreid jobState call) = [] :=
        if_neg (by simpa [htx] using hq)
      rw [hbursts, List.append_nil]
      exact hp.elsewhere hr (portTransmit_elsewhere s lcoreid q k call) (Ne.symm hq)
        (by simp [hpc])
  · rw [hnone, List.append_nil]
    exact hp.quiet hr hquiet

-- ================================================================= whole runs

/-- After start-up every port has one lcore at most, and a controller as
`tx_ctl_init` makes it if it has one. -/
theorem startUp_paced (h : startUp c = some s) (p : UInt8) : Paced c p s [] := by
  have hr := startUp_ready h
  obtain ⟨params, mapped, ports, ret, ports', ret', probe, hcheck, hmap, hinit, hret, -, hstart,
    hret', rfl⟩ := startUp_eq_some h
  have happlied : c.Applied mapped := Mapping.initLcorePort_applied hcheck hmap
  exact
    { toReady := hr
      owner := by
        intro l l' hl hl' hmem hmem'
        have hmap := happlied.lcoreMap_of_mem _ ((happlied.mem_jobs p .tx l hl).mp hmem)
        have hmap' := happlied.lcoreMap_of_mem _ ((happlied.mem_jobs p .tx l' hl').mp hmem')
        exact hmap.symm.trans hmap'
      idle := by
        intro l hl hmem
        obtain ⟨hon, hmapped⟩ := hr.jobs l .tx p hl hmem
        have hctl : Port.Controlled c.global ports p :=
          Port.portInit_control hinit hret (by rwa [happlied.portIsEnabled])
            ((happlied.lcoreMap_ne_iff hon).mpr hmapped)
        have hlist := @Port.portStartLoop_portList c.dpdk ports (Port.portIds ports.portNbMax)
        rw [show Port.portStartLoop c.dpdk _ ports = (ports', ret') from hstart] at hlist
        show (ports'.portList p).txCtl.Idle _
        rw [hlist, show (ports.portList p).txCtl = _ from hctl]
        exact Transmitter.txCtlInit_idle c.global txqTx
      spaced := Spaced.nil
      due := by simp
      count := rfl }

/-- Along a run. -/
theorem run_paced {acts : List Act} (hp : Paced c p s []) (hrun : Lts.run (step c) s acts = some s')
    (hfit : ∀ b ∈ Lts.observe (step c) (dataBurst p) s acts, Fits c b) :
    Paced c p s' (Lts.observe (step c) (dataBurst p) s acts) := by
  have hrule := @Lts.run_observed Sys Act (step c) Transmitter.Burst (dataBurst p)
    (fun t bs => (∀ b ∈ bs, Fits c b) → Paced c p t bs)
    (fun {t t' a bs} hI hstep hall => by
      have hpaced := hI fun b hb => hall b (List.mem_append_left _ hb)
      exact hpaced.step hstep fun b hb => hall b (List.mem_append_right _ hb))
    acts s s' [] (fun _ => hp) hrun
  rw [List.nil_append] at hrule
  exact hrule hfit

/-- The rate of the whole program. After start-up, in every run of all its
threads, between any two data bursts of a port more time passes than the bytes
sent from the first up to the second cost at the configured rate, whichever
lcores call `port_transmit` and when; and these bursts are all there are on the
data queue. -/
theorem run_rate {s₀ : Sys} {acts : List Act} (hstart : startUp c = some s₀)
    (hrun : Lts.run (step c) s₀ acts = some s) (p : UInt8) {bs : List Transmitter.Burst}
    (hbs : Lts.observe (step c) (dataBurst p) s₀ acts = bs) (hfit : ∀ b ∈ bs, Fits c b) :
    (∀ i j, (hi : i < bs.length) → (hj : j < bs.length) → i < j →
      (((bs.drop i).take (j - i)).map Transmitter.Burst.wireSize).sum * c.cyclesPerByte
        < (bs[j].cycles.toNat : ℚ) - bs[i].cycles.toNat) ∧
    s.bursts.count (.tx p txqTx) = bs.length := by
  subst hbs
  have hp := run_paced (startUp_paced hstart p) hrun hfit
  refine ⟨?_, hp.count⟩
  generalize Lts.observe (step c) (dataBurst p) s₀ acts = bs at hp
  intro i j _ hj hij
  have hwindow := hp.spaced.window hij hj
  rw [List.sum_map_mul_right] at hwindow
  rw [Nat.cast_list_sum, List.map_map]
  exact hwindow

/-- One port, received on by lcore 1 and sent on by lcore 2; the lcore goes
round twice and gets a burst at 5 and one at 2054. -/
def twoBursts : List Act :=
  [.lcore 2 3 (.minimal 0), .lcore 1 3 (.minimal 0), .lcore 2 3 (.minimal 0),
    .lcore 2 3 (.minimal 5), .lcore 2 3 (.minimal 0), .lcore 2 3 (.minimal 0),
    .lcore 2 3 (.minimal 0), .lcore 2 3 (.minimal 2054)]

/-- The burst of a call `Call.minimal`. -/
def burstAt (cycles : UInt64) : Transmitter.Burst :=
  { cycles := cycles, pkts := List.replicate 32 ⟨40⟩ }

/-- The two bursts of 2048 bytes, at a byte a cycle. -/
theorem run_rate_twoBursts :
    ∃ s₀ s, startUp (onePort [⟨0, .rx, 1⟩, ⟨0, .tx, 2⟩]) = some s₀
      ∧ Lts.run (step (onePort [⟨0, .rx, 1⟩, ⟨0, .tx, 2⟩])) s₀ twoBursts = some s
      ∧ s.bursts.count (.tx 0 txqTx) = 2
      ∧ (2048 : ℚ) * (onePort [⟨0, .rx, 1⟩, ⟨0, .tx, 2⟩]).cyclesPerByte
          < (2054 : UInt64).toNat - (5 : UInt64).toNat := by
  have h : ((startUp (onePort [⟨0, .rx, 1⟩, ⟨0, .tx, 2⟩])).bind fun s₀ =>
      (Lts.run (step (onePort [⟨0, .rx, 1⟩, ⟨0, .tx, 2⟩])) s₀ twoBursts).map fun _ =>
        Lts.observe (step (onePort [⟨0, .rx, 1⟩, ⟨0, .tx, 2⟩])) (dataBurst 0) s₀ twoBursts)
      = some [burstAt 5, burstAt 2054] := by
    decide +kernel
  obtain ⟨s₀, hstart, h⟩ := Option.bind_eq_some_iff.mp h
  obtain ⟨s, hrun, hbs⟩ := Option.map_eq_some_iff.mp h
  have hlen : ∀ cycles, ∀ pkt ∈ (burstAt cycles).pkts, pkt.pktLen ≤ 65535 := by
    intro cycles pkt hpkt
    rw [(List.mem_replicate.mp hpkt).2]
    decide
  have hfit : ∀ b ∈ [burstAt 5, burstAt 2054],
      Fits (onePort [⟨0, .rx, 1⟩, ⟨0, .tx, 2⟩]) b :=
    List.forall_mem_cons.mpr ⟨⟨hlen 5, by decide +kernel⟩,
      List.forall_mem_singleton.mpr ⟨hlen 2054, by decide +kernel⟩⟩
  obtain ⟨hrate, hcount⟩ := run_rate hstart hrun 0 hbs hfit
  have hwindow := hrate 0 1 (by decide) (by decide) (by decide)
  rw [show (([burstAt 5, burstAt 2054].drop 0).take (1 - 0)).map Transmitter.Burst.wireSize
    = [2048] from rfl, List.sum_singleton, Nat.cast_ofNat] at hwindow
  exact ⟨s₀, s, hstart, hrun, hcount, hwindow⟩

end PktSender.Launch
