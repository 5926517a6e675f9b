/-
What a step of the ticks can do, and the numbers of the probes.

`step_moved` and `read_out` say once what a step does where it is enabled; the
invariants are proved by cases on them. The first one is `Numbered`: a probe
that is refused keeps its number for the next tick, and the one after it gets
the next, so no two accepted probes share a number until the counter wraps.
-/
import PktSender.Latch.Basic
import PktSender.Tracer.Proofs.Prepare
import Mathlib.Algebra.Group.Nat.Defs
import Mathlib.Data.List.Nodup

namespace PktSender.Latch

open Tracer (Timespec LocalInfo)

variable {cfg : Cfg} {s s' : State} {a : Act}

-- ================================================================ the steps

/-- What a step does where it is enabled. -/
inductive Moved (cfg : Cfg) (s : State) : Act → State → Prop where
  | fire (jobState : UInt8) (alloc : Option (Nat × Probe.Mbuf)) :
      s.pc = .idle → Moved cfg s (.fire jobState alloc) (fire cfg s jobState alloc)
  | prepare : s.pc = .prepare → Moved cfg s .prepare (prepare cfg s)
  | refused (ts : Timespec) : s.pc = .send → Moved cfg s (.send 0 ts) { s with pc := .idle }
  | accepted (ts : Timespec) : s.pc = .send → Moved cfg s (.send 1 ts) (accept cfg s ts)
  | read {waitUs : ℕ} {s' : State} (fopenOk : Bool) :
      s.pc = .record waitUs → read cfg s waitUs fopenOk = some s' →
        Moved cfg s (.read fopenOk) s'
  | storeCurrent (ts : Timespec) : s.nic.current = some ts →
      Moved cfg s .storeCurrent { s with nic := { s.nic with latch := some ts, current := none } }
  | storeEarlier (k : ℕ) (nic : Nic) : Moved cfg s (.storeEarlier k) { s with nic := nic }

/-- Every step is one of these. -/
theorem step_moved (h : step cfg s a = some s') : Moved cfg s a s' := by
  cases a with
  | fire jobState alloc =>
      simp only [step] at h
      split at h
      case isFalse => cases h
      case isTrue hpc =>
        cases h
        exact .fire jobState alloc hpc
  | prepare =>
      simp only [step] at h
      split at h
      case isFalse => cases h
      case isTrue hpc =>
        cases h
        exact .prepare hpc
  | send ret ts =>
      simp only [step] at h
      split at h
      case isFalse => cases h
      case isTrue hpc =>
        split at h
        case isTrue => cases h
        case isFalse hle =>
          split at h
          case isTrue hlt =>
            cases h
            obtain rfl : ret = 0 := by omega
            exact .refused ts hpc
          case isFalse hge =>
            cases h
            obtain rfl : ret = 1 := by omega
            exact .accepted ts hpc
  | read fopenOk =>
      simp only [step] at h
      split at h
      case h_1 waitUs hpc => exact .read fopenOk hpc h
      case h_2 => cases h
  | storeCurrent =>
      obtain ⟨nic, hnic, rfl⟩ := Option.map_eq_some_iff.mp h
      unfold Nic.storeCurrent at hnic
      split at hnic
      case isTrue => cases hnic
      case isFalse =>
        obtain ⟨ts, hcurrent, rfl⟩ := Option.map_eq_some_iff.mp hnic
        exact .storeCurrent ts hcurrent
  | storeEarlier k =>
      obtain ⟨nic, -, rfl⟩ := Option.map_eq_some_iff.mp h
      exact .storeEarlier k nic

/-- What a read does: it is made again, given up, or its time recorded. -/
inductive ReadOut (cfg : Cfg) (s : State) (fopenOk : Bool) : State → Prop where
  | again (waitUs : ℕ) :
      ReadOut cfg s fopenOk { s with nic := s.nic.readTxTimestamp.1, pc := .record waitUs }
  | failed : ReadOut cfg s fopenOk (finish { s with nic := s.nic.readTxTimestamp.1 })
  | record {ts : Timespec} {info : LocalInfo} : s.nic.latch = some ts →
      Tracer.recordHwTx s.info cfg.gettid (fileEnv fopenOk) (fileEnv fopenOk) (some s.pkt.data) ts
        = some info →
      ReadOut cfg s fopenOk (finish { s with nic := s.nic.readTxTimestamp.1, info := info })

/-- Every read does one of these. -/
theorem read_out {waitUs : ℕ} {fopenOk : Bool} (h : read cfg s waitUs fopenOk = some s') :
    ReadOut cfg s fopenOk s' := by
  unfold read at h
  simp only at h
  split at h
  case h_1 waitUs' _ =>
    cases h
    exact .again waitUs'
  case h_2 =>
    cases h
    exact .failed
  case h_3 ts hafter =>
    obtain ⟨info, hinfo, rfl⟩ := Option.map_eq_some_iff.mp h
    refine .record ?_ hinfo
    unfold Tracer.afterRead at hafter
    split at hafter
    case h_1 => split at hafter <;> cases hafter
    case h_2 ts' hlatch =>
      split at hafter
      · cases hafter
      · cases hafter
        exact hlatch

-- ================================================================ the numbers

/-- The accepted probes are numbered one after the other, from `first` on, and
the pending one is the next. -/
structure Numbered (first : UInt64) (s : State) : Prop where
  transmitted : s.transmitted.map Prod.fst
    = ((List.range s.transmitted.length).map fun i => first + UInt64.ofNat i).reverse
  /-- no probe, or one that was accepted and is not freed yet -/
  taken : s.ctl.nextPkt = none ∨ (∃ waitUs, s.pc = .record waitUs) →
    s.ctl.nextIdx = first + UInt64.ofNat s.transmitted.length
  pending : s.ctl.nextPkt ≠ none → (∀ waitUs, s.pc ≠ .record waitUs) →
    s.pkt.data.probeIdx = first + UInt64.ofNat s.transmitted.length ∧
      s.ctl.nextIdx = s.pkt.data.probeIdx + 1
  offered : s.pc = .prepare ∨ s.pc = .send → s.ctl.nextPkt ≠ none

theorem numbered_start (ctl : Probe.ProbeCtl) (pkt : Probe.Mbuf) :
    Numbered ctl.nextIdx (start ctl pkt) where
  transmitted := rfl
  taken := fun _ => (UInt64.add_zero _).symm
  pending := fun hpending => absurd rfl hpending
  offered := by simp [start]

/-- `trace_hw_tx_prepare` writes flags only. -/
theorem traceHwTxPrepare_data (flag : UInt64) (tid : Int32) (pkt : Probe.Mbuf) :
    ((Tracer.traceHwTxPrepare flag tid [pkt]).1.headD pkt).data = pkt.data := by
  rw [Tracer.traceHwTxPrepare_eq]
  split
  · rfl
  · exact Tracer.marked_data flag pkt

/-- A frame is only built where none is pending, and takes the next number. -/
theorem Numbered.fire {first : UInt64} (h : Numbered first s) (hidle : s.pc = .idle)
    (jobState : UInt8) (alloc : Option (Nat × Probe.Mbuf)) :
    Numbered first (fire cfg s jobState alloc) := by
  have hout : ∀ waitUs, s.pc ≠ .record waitUs := by simp [hidle]
  unfold Latch.fire
  split
  case isTrue => exact h
  case isFalse =>
    split
    case isFalse hpending =>
      constructor
      case transmitted => exact h.transmitted
      case taken => simp [hpending]
      case pending => exact fun _ _ => h.pending hpending hout
      case offered => exact fun _ => hpending
    case isTrue hnone =>
      cases alloc with
      | none => exact h
      | some m =>
          have hidx := h.taken (.inl hnone)
          constructor
          case transmitted => exact h.transmitted
          case taken => simp [constructProbe]
          case pending => exact fun _ _ => ⟨hidx, rfl⟩
          case offered => simp [constructProbe]

/-- The accepted probe is the pending one. -/
theorem Numbered.accept {first : UInt64} (h : Numbered first s) (hpc : s.pc = .send)
    (ts : Timespec) : Numbered first (accept cfg s ts) := by
  obtain ⟨hpkt, hnext⟩ := h.pending (h.offered (.inr hpc)) (by simp [hpc])
  have hlist : ((s.pkt.data.probeIdx, ts) :: s.transmitted).map Prod.fst
      = ((List.range (s.transmitted.length + 1)).map fun i => first + UInt64.ofNat i).reverse := by
    rw [List.map_cons, h.transmitted, hpkt, List.range_succ, List.map_append, List.reverse_append]
    rfl
  have hidx : s.ctl.nextIdx = first + UInt64.ofNat (s.transmitted.length + 1) := by
    rw [hnext, hpkt, UInt64.ofNat_add, UInt64.add_assoc]
    rfl
  unfold Latch.accept
  simp only
  split
  · exact ⟨hlist, fun _ => hidx, fun hpending => absurd rfl hpending, by simp [finish]⟩
  · exact ⟨hlist, fun _ => hidx, fun _ hout => absurd rfl (hout 0), by simp⟩

theorem Numbered.finish {first : UInt64} {nic : Nic} {info : LocalInfo} (h : Numbered first s)
    {waitUs : ℕ} (hpc : s.pc = .record waitUs) :
    Numbered first (finish { s with nic := nic, info := info }) where
  transmitted := h.transmitted
  taken := fun _ => h.taken (.inr ⟨waitUs, hpc⟩)
  pending := fun hpending => absurd rfl hpending
  offered := by simp [Latch.finish]

theorem Numbered.step {first : UInt64} (h : Numbered first s)
    (hstep : Latch.step cfg s a = some s') : Numbered first s' := by
  cases step_moved hstep with
  | fire jobState alloc hidle => exact h.fire hidle jobState alloc
  | prepare hpc =>
      have hpending := h.offered (.inl hpc)
      constructor
      case transmitted => exact h.transmitted
      case taken => simp [Latch.prepare, hpending]
      case pending =>
        intro _ _
        simp only [Latch.prepare, traceHwTxPrepare_data]
        exact h.pending hpending (by simp [hpc])
      case offered => exact fun _ => hpending
  | refused ts hpc =>
      have hpending := h.offered (.inr hpc)
      constructor
      case transmitted => exact h.transmitted
      case taken => simp [hpending]
      case pending => exact fun _ _ => h.pending hpending (by simp [hpc])
      case offered => simp
  | accepted ts hpc => exact h.accept hpc ts
  | read fopenOk hpc hread =>
      cases read_out hread with
      | again waitUs' =>
          constructor
          case transmitted => exact h.transmitted
          case taken => exact fun _ => h.taken (.inr ⟨_, hpc⟩)
          case pending => exact fun _ hout => absurd rfl (hout waitUs')
          case offered => simp
      | failed => exact h.finish hpc
      | record => exact h.finish hpc
  | storeCurrent => exact ⟨h.transmitted, h.taken, h.pending, h.offered⟩
  | storeEarlier => exact ⟨h.transmitted, h.taken, h.pending, h.offered⟩

/-- In every run of fewer than 2^64 probes each number is one transmission. -/
theorem transmitted_unique {ctl : Probe.ProbeCtl} {pkt : Probe.Mbuf} {acts : List Act}
    (hrun : Lts.run (step cfg) (start ctl pkt) acts = some s)
    (hfew : s.transmitted.length < 2 ^ 64) {k : UInt64} {ts ts' : Timespec}
    (h : (k, ts) ∈ s.transmitted) (h' : (k, ts') ∈ s.transmitted) : ts = ts' := by
  have hnum : Numbered ctl.nextIdx s :=
    Lts.run_invariant_all Numbered.step (numbered_start ctl pkt) hrun
  have hnodup : (s.transmitted.map Prod.fst).Nodup := by
    rw [hnum.transmitted, List.nodup_reverse]
    apply List.Nodup.map_on ?_ List.nodup_range
    intro i hi j hj hij
    have hi := List.mem_range.mp hi
    have hj := List.mem_range.mp hj
    have heq : UInt64.ofNat i = UInt64.ofNat j := (UInt64.add_right_inj _).mp hij
    have hmod := congrArg UInt64.toNat heq
    rw [UInt64.toNat_ofNat', UInt64.toNat_ofNat'] at hmod
    rwa [Nat.mod_eq_of_lt (by omega), Nat.mod_eq_of_lt (by omega)] at hmod
  have hsame := List.inj_on_of_nodup_map hnodup h h' rfl
  exact (Prod.mk.inj hsame).2

end PktSender.Latch
