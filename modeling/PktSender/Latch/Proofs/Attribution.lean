/-
Which transmission a hardware TX timestamp belongs to.

# The latch during a tick

Between the acceptance of a probe and the read that succeeds nothing but the
probe's own time can be stored, if no earlier time is stored during a tick
(`Timely`). So the record is right when the latch was empty at the acceptance
(`FoundEmpty`; with the trace closed nothing is read). Nothing else sees to
that: `__construct_probe` sets the flag itself, and `trace_hw_tx_prepare` only
reads the old value for a packet without the flag (`prepare_reads_nothing`). A
record names its probe by the number, which is that of one transmission
(`transmitted_unique`).
-/
import PktSender.Latch.Proofs.Numbering
import PktSender.Tracer.Proofs.Cache

namespace PktSender.Latch

open Dump (RecordFmt)
open Probe (fillProbe)
open Tracer (Timespec LocalInfo Timed Recorded Matches locHardwareTx timestampTimespec
  traceHwTxPrepare_of_flag or_and_flag)

variable {cfg : Cfg} {s s' : State} {a : Act}

-- ============================================================== the property

/-- Every record of a hardware TX timestamp, in the file or the cache, carries
the time a probe of its index was sent. -/
def Attributed (s : State) : Prop :=
  ∀ r ∈ s.info.records, r.location = locHardwareTx →
    ∃ ts : Timespec, (r.probeIdx, ts) ∈ s.transmitted ∧
      r.timestamp = { tsType := timestampTimespec, word0 := ts.tvSec, word1 := ts.tvNsec }

/-- Times of earlier probes are stored before the next tick begins, or never. -/
def Timely (s : State) : Act → Prop
  | .storeCurrent => s.pc ≠ .prepare ∧ s.pc ≠ .send
  | .storeEarlier _ => s.pc = .idle
  | _ => True

instance (s : State) : (a : Act) → Decidable (Timely s a)
  | .storeCurrent => inferInstanceAs (Decidable (s.pc ≠ .prepare ∧ s.pc ≠ .send))
  | .storeEarlier _ => inferInstanceAs (Decidable (s.pc = .idle))
  | .fire _ _ | .prepare | .send _ _ | .read _ => inferInstanceAs (Decidable True)

/-- The latch is empty when a probe is accepted, unless the trace is closed and
nothing will be read. -/
def FoundEmpty (s : State) : Act → Prop
  | .send ret _ => 0 < ret → 0 ≤ s.info.tid → s.nic.latch = none
  | _ => True

instance (s : State) : (a : Act) → Decidable (FoundEmpty s a)
  | .send ret _ => inferInstanceAs (Decidable (0 < ret → 0 ≤ s.info.tid → s.nic.latch = none))
  | .fire _ _ | .prepare | .read _ | .storeCurrent | .storeEarlier _ =>
      inferInstanceAs (Decidable True)

-- ============================================================= the invariant

/-- A call of `__record_to_cache` with the time of a transmission. -/
def Sent (s : State) (t : Timed) : Prop :=
  t.type = timestampTimespec ∧ (t.idx, t.ts) ∈ s.transmitted

/-- The records are of transmissions, and while a probe is waited for the NIC
holds its time or none. -/
structure Inv (cfg : Cfg) (s : State) : Prop where
  records : ∃ times, Recorded cfg.gettid times s.info ∧ ∀ t ∈ times, Sent s t
  waiting : ∀ waitUs, s.pc = .record waitUs →
    ∃ ts, (s.pkt.data.probeIdx, ts) ∈ s.transmitted ∧
      (∀ ts', s.nic.latch = some ts' → ts' = ts) ∧
      ∀ ts', s.nic.current = some ts' → ts' = ts

theorem inv_start (ctl : Probe.ProbeCtl) (pkt : Probe.Mbuf) : Inv cfg (start ctl pkt) where
  records := ⟨[], Tracer.recorded_start, by simp⟩
  waiting := nofun

/-- A record that matches a transmission carries its time. -/
theorem Inv.attributed (h : Inv cfg s) : Attributed s := by
  obtain ⟨times, hrecorded, hsent⟩ := h.records
  intro r hr _
  obtain ⟨t, ht, hmatch⟩ := hrecorded.mem_records hr
  obtain ⟨htype, hmem⟩ := hsent t ht
  refine ⟨t.ts, ?_, ?_⟩
  · rw [hmatch.probeIdx]
    exact hmem
  · obtain ⟨hword0, hword1⟩ := hmatch.timespec htype
    rw [← htype, ← hmatch.tsType, ← hword0, ← hword1]

/-- A step that leaves the tracer alone and forgets no transmission keeps the
records. -/
theorem records_of_info_eq (h : ∃ times, Recorded cfg.gettid times s.info ∧ ∀ t ∈ times, Sent s t)
    (hinfo : s'.info = s.info) (hsub : s.transmitted ⊆ s'.transmitted) :
    ∃ times, Recorded cfg.gettid times s'.info ∧ ∀ t ∈ times, Sent s' t := by
  obtain ⟨times, hrecorded, hsent⟩ := h
  refine ⟨times, ?_, ?_⟩
  · rw [hinfo]
    exact hrecorded
  · intro t ht
    exact ⟨(hsent t ht).1, hsub (hsent t ht).2⟩

-- ================================================================ the steps

/-- The tick begins: nothing but the control block and its packet change. -/
theorem fire_cases (cfg : Cfg) (s : State) (jobState : UInt8) (alloc : Option (Nat × Probe.Mbuf)) :
    (fire cfg s jobState alloc).info = s.info ∧
      (fire cfg s jobState alloc).nic = s.nic ∧
      (fire cfg s jobState alloc).transmitted = s.transmitted ∧
      ((fire cfg s jobState alloc).pc = s.pc ∨ (fire cfg s jobState alloc).pc = .prepare) := by
  unfold fire
  split
  case isTrue => exact ⟨rfl, rfl, rfl, .inl rfl⟩
  case isFalse =>
    split
    case isFalse => exact ⟨rfl, rfl, rfl, .inr rfl⟩
    case isTrue =>
      cases alloc with
      | none => exact ⟨rfl, rfl, rfl, .inl rfl⟩
      | some m => exact ⟨rfl, rfl, rfl, .inr rfl⟩

theorem prepare_inv (h : Inv cfg s) : Inv cfg (prepare cfg s) where
  records := records_of_info_eq h.records rfl (List.Subset.refl _)
  waiting := nofun

/-- The probe is accepted: from here the NIC has its time or nothing. -/
theorem accept_inv (h : Inv cfg s) (hempty : 0 ≤ s.info.tid → s.nic.latch = none)
    (ts : Timespec) :
    Inv cfg (accept cfg s ts) := by
  unfold accept
  simp only
  split
  case isTrue =>
    constructor
    case records => exact records_of_info_eq h.records rfl (List.subset_cons_self _ _)
    case waiting => nofun
  case isFalse hopen =>
    constructor
    case records => exact records_of_info_eq h.records rfl (List.subset_cons_self _ _)
    case waiting =>
      intro waitUs _
      have hlatch := hempty (Int32.not_lt.mp hopen)
      refine ⟨ts, List.mem_cons_self, ?_, ?_⟩
      · intro ts' hts'
        simp only [Nic.transmit, hlatch] at hts'
        cases hts'
      · intro ts' hcurrent
        simp only [Nic.transmit] at hcurrent
        split at hcurrent
        · exact (Option.some.inj hcurrent).symm
        · cases hcurrent

theorem finish_inv (h : ∃ times, Recorded cfg.gettid times s.info ∧ ∀ t ∈ times, Sent s t) :
    Inv cfg (finish s) where
  records := records_of_info_eq h rfl (List.Subset.refl _)
  waiting := nofun

theorem fileEnv_full (fopenOk : Bool) : (fileEnv fopenOk).Full where
  answered := by simp [fileEnv]
  full := by simp [fileEnv]

/-- Recording a time of a transmission and flushing the cache. -/
theorem recordHwTx_recorded {info : LocalInfo} {times : List Timed}
    (h : Recorded cfg.gettid times info) (fopenOk : Bool) (fmt : Probe.PktFmt) (ts : Timespec) :
    ∃ info', Tracer.recordHwTx info cfg.gettid (fileEnv fopenOk) (fileEnv fopenOk) (some fmt) ts
        = some info' ∧
      ∃ times', Recorded cfg.gettid times' info' ∧
        ∀ t ∈ times', t ∈ times ∨
          t = { loc := locHardwareTx, idx := fmt.probeIdx, sender := fmt.probeSender
                type := timestampTimespec, ts := ts } := by
  obtain ⟨info₁, hcall, hcases⟩ := Tracer.recordToCache_cases h (fileEnv_full fopenOk)
    locHardwareTx fmt.probeIdx fmt.probeSender timestampTimespec ts
  -- without a file the time is dropped
  obtain ⟨times₁, h₁, hfrom⟩ : ∃ times₁, Recorded cfg.gettid times₁ info₁ ∧
      ∀ t ∈ times₁, t ∈ times ∨
        t = { loc := locHardwareTx, idx := fmt.probeIdx, sender := fmt.probeSender
              type := timestampTimespec, ts := ts } := by
    rcases hcases with h₁ | ⟨-, h₁⟩
    · exact ⟨_, h₁, fun t ht => by simpa using ht⟩
    · exact ⟨_, h₁, fun t ht => .inl ht⟩
  obtain ⟨info', hflush, h'⟩ := Tracer.traceFlush_recorded h₁ (fileEnv_full fopenOk)
  refine ⟨info', ?_, times₁, h', hfrom⟩
  simp only [Tracer.recordHwTx, hcall]
  exact hflush

/-- A read: the time it returns is the probe's own. -/
theorem read_inv {waitUs : ℕ} {fopenOk : Bool} (h : Inv cfg s) (hpc : s.pc = .record waitUs)
    (hread : read cfg s waitUs fopenOk = some s') : Inv cfg s' := by
  obtain ⟨ts, hmem, hlatch, hcurrent⟩ := h.waiting waitUs hpc
  cases read_out hread with
  | again =>
      constructor
      case records => exact records_of_info_eq h.records rfl (List.Subset.refl _)
      case waiting =>
        intro _ _
        exact ⟨ts, hmem, nofun, hcurrent⟩
  | failed => exact finish_inv (records_of_info_eq h.records rfl (List.Subset.refl _))
  | @record ts' info hsome hinfo =>
      have hown : ts' = ts := hlatch ts' hsome
      obtain ⟨times, hrecorded, hsent⟩ := h.records
      obtain ⟨info', hcall, times', hrecorded', hnew⟩ :=
        recordHwTx_recorded hrecorded fopenOk s.pkt.data ts'
      obtain rfl := Option.some.inj (hinfo.symm.trans hcall)
      apply finish_inv
      refine ⟨times', hrecorded', ?_⟩
      intro t ht
      rcases hnew t ht with hold | rfl
      · exact hsent t hold
      · refine ⟨rfl, ?_⟩
        rw [hown]
        exact hmem

/-- The NIC stores a time: during a tick only the probe's own. -/
theorem store_inv {nic : Nic} (h : Inv cfg s)
    (hstore : ∀ waitUs, s.pc = .record waitUs →
      (∀ ts, nic.latch = some ts → s.nic.current = some ts) ∧ nic.current = none) :
    Inv cfg { s with nic := nic } where
  records := records_of_info_eq h.records rfl (List.Subset.refl _)
  waiting := by
    intro waitUs hpc
    obtain ⟨ts, hmem, -, hcurrent⟩ := h.waiting waitUs hpc
    obtain ⟨hlatch, hnone⟩ := hstore waitUs hpc
    refine ⟨ts, hmem, ?_, ?_⟩
    · intro ts' hts'
      exact hcurrent ts' (hlatch ts' hts')
    · intro ts' hts'
      rw [hnone] at hts'
      cases hts'

theorem Inv.step (h : Inv cfg s) (hok : Timely s a ∧ FoundEmpty s a)
    (hstep : Latch.step cfg s a = some s') : Inv cfg s' := by
  obtain ⟨htimely, hempty⟩ := hok
  cases step_moved hstep with
  | fire jobState alloc hidle =>
      obtain ⟨hinfo, -, htrans, hpc⟩ := fire_cases cfg s jobState alloc
      constructor
      case records =>
        apply records_of_info_eq h.records hinfo
        rw [htrans]
        exact List.Subset.refl _
      case waiting =>
        intro waitUs hrecord
        rcases hpc with hpc | hpc
        · rw [hpc, hidle] at hrecord
          cases hrecord
        · rw [hpc] at hrecord
          cases hrecord
  | prepare => exact prepare_inv h
  | refused =>
      constructor
      case records => exact records_of_info_eq h.records rfl (List.Subset.refl _)
      case waiting => nofun
  | accepted ts => exact accept_inv h (hempty Nat.one_pos) ts
  | read fopenOk hpc hread => exact read_inv h hpc hread
  | storeCurrent ts hcurrent =>
      apply store_inv h
      intro _ _
      refine ⟨?_, rfl⟩
      intro ts' hts'
      cases hts'
      exact hcurrent
  | storeEarlier k nic =>
      apply store_inv h
      intro waitUs hpc
      have hidle : s.pc = .idle := htimely
      rw [hidle] at hpc
      cases hpc

/-- In every run in which the times of earlier probes are not stored during a
tick and the latch is empty whenever a probe is accepted with the trace open,
every hardware TX record carries the time its probe was sent. -/
theorem attributed_of_foundEmpty {ctl : Probe.ProbeCtl} {pkt : Probe.Mbuf} {acts : List Act}
    (hok : Lts.AllSteps (step cfg) (fun s a => Timely s a ∧ FoundEmpty s a) (start ctl pkt) acts)
    (hrun : Lts.run (step cfg) (start ctl pkt) acts = some s) : Attributed s :=
  (Lts.run_invariant Inv.step (inv_start ctl pkt) hok hrun).attributed

-- ======================================================= the unread old value

/-- A pending packet has the flag from its construction on. -/
structure Flagged (cfg : Cfg) (s : State) : Prop where
  pending : s.pc = .prepare → s.ctl.nextPkt ≠ none
  flag : s.ctl.nextPkt ≠ none → s.pkt.olFlags &&& cfg.pktTxIeee1588Tmst ≠ 0

theorem flagged_fire (hflag : cfg.pktTxIeee1588Tmst ≠ 0) (h : Flagged cfg s)
    (hidle : s.pc = .idle) (jobState : UInt8) (alloc : Option (Nat × Probe.Mbuf)) :
    Flagged cfg (fire cfg s jobState alloc) := by
  have hrest : s.pc ≠ .prepare := by simp [hidle]
  unfold fire
  split
  case isTrue => exact h
  case isFalse =>
    split
    case isFalse hpending => exact ⟨fun _ => hpending, h.flag⟩
    case isTrue =>
      cases alloc with
      | none => exact ⟨fun hpc => absurd hpc hrest, h.flag⟩
      | some m =>
          refine ⟨fun _ => by simp [constructProbe], fun _ => ?_⟩
          simp only [constructProbe, lt_self_iff_false, if_false]
          rw [or_and_flag]
          exact hflag

theorem flagged_finish (cfg : Cfg) (s : State) : Flagged cfg (finish s) where
  pending := nofun
  flag := fun hpending => absurd rfl hpending

theorem Flagged.step (hflag : cfg.pktTxIeee1588Tmst ≠ 0) (h : Flagged cfg s)
    (hstep : Latch.step cfg s a = some s') : Flagged cfg s' := by
  cases step_moved hstep with
  | fire jobState alloc hidle => exact flagged_fire hflag h hidle jobState alloc
  | prepare hpc =>
      refine ⟨by simp [Latch.prepare], ?_⟩
      intro hpending
      simp only [Latch.prepare, traceHwTxPrepare_of_flag (h.flag (h.pending hpc)), List.headD_cons]
      exact h.flag hpending
  | refused => exact ⟨by simp, h.flag⟩
  | accepted ts =>
      unfold accept
      simp only
      split
      · exact flagged_finish cfg _
      · exact ⟨by simp, h.flag⟩
  | read fopenOk _ hread =>
      cases read_out hread with
      | again => exact ⟨by simp, h.flag⟩
      | failed => exact flagged_finish cfg _
      | record => exact flagged_finish cfg _
  | storeCurrent => exact ⟨h.pending, h.flag⟩
  | storeEarlier => exact ⟨h.pending, h.flag⟩

/-- So in no run does `trace_hw_tx_prepare` take an old time out of the latch. -/
theorem prepare_reads_nothing (hflag : cfg.pktTxIeee1588Tmst ≠ 0) {ctl : Probe.ProbeCtl}
    {pkt : Probe.Mbuf} {acts : List Act}
    (hrun : Lts.run (step cfg) (start ctl pkt) acts = some s) (hpc : s.pc = .prepare) :
    (prepare cfg s).nic = s.nic := by
  have hstart : Flagged cfg (start ctl pkt) :=
    ⟨nofun, fun hpending => absurd rfl hpending⟩
  have h : Flagged cfg s := Lts.run_invariant_all (Flagged.step hflag) hstart hrun
  simp [prepare, traceHwTxPrepare_of_flag (h.flag (h.pending hpc))]

-- ================================================================= two runs

/-- Port 0 after `probe_init`, in thread 1. -/
def port0 : State :=
  start { Probe.ProbeCtl.zero with queueid := Probe.txqLatency }
    { pktLen := 0, dataLen := 0, olFlags := 0, data := fillProbe .zero }

def cfg0 : Cfg :=
  { pktTxIeee1588Tmst := 1, gettid := 1 }

/-- A tick up to the reads, with an accepted probe. -/
def tick (ts : Timespec) : List Act :=
  [.fire 3 (some (0, port0.pkt)), .prepare, .send 1 ts]

/-- Two ticks in each of which the time comes at once. -/
def promptRun : List Act :=
  tick ⟨5, 0⟩ ++ [.storeCurrent, .read true] ++ tick ⟨6, 0⟩ ++ [.storeCurrent, .read true]

/-- Both times are recorded, each for its own probe. -/
theorem attributed_of_foundEmpty_prompt :
    ∃ s, Lts.run (step cfg0) port0 promptRun = some s ∧
      s.info.records.map (fun r => (r.probeIdx, r.timestamp.word0)) = [(0, 5), (1, 6)] ∧
      Attributed s := by
  have hok : Lts.AllSteps (step cfg0) (fun s a => Timely s a ∧ FoundEmpty s a) port0
      promptRun := by
    decide +kernel
  have hend : (Lts.run (step cfg0) port0 promptRun).map
      (fun s => s.info.records.map fun r => (r.probeIdx, r.timestamp.word0))
      = some [(0, 5), (1, 6)] := by
    decide +kernel
  obtain ⟨s, hrun, hrecords⟩ := Option.map_eq_some_iff.mp hend
  exact ⟨s, hrun, hrecords, attributed_of_foundEmpty hok hrun⟩

/-- A first probe whose time comes after the last read, and the next tick. -/
def lateRun : List Act :=
  tick ⟨5, 0⟩ ++ List.replicate 1001 (.read true) ++ [.storeCurrent] ++ tick ⟨6, 0⟩ ++ [.read true]

/-- The second probe is recorded with the time of the first. -/
theorem late_time_misattributed :
    ∃ s, Lts.run (step cfg0) port0 lateRun = some s ∧
      Lts.AllSteps (step cfg0) Timely port0 lateRun ∧ ¬Attributed s := by
  have htimely : Lts.AllSteps (step cfg0) Timely port0 lateRun := by
    decide +kernel
  have hend : (Lts.run (step cfg0) port0 lateRun).map (fun s => (s.transmitted, s.info.records))
      = some ([(1, ⟨6, 0⟩), (0, ⟨5, 0⟩)],
          [{ tid := 1, location := locHardwareTx, probeSender := 0, probeIdx := 1
             timestamp := { tsType := timestampTimespec, word0 := 5, word1 := 0 } }]) := by
    decide +kernel
  obtain ⟨s, hrun, hs⟩ := Option.map_eq_some_iff.mp hend
  obtain ⟨htransmitted, hrecords⟩ := Prod.mk.inj hs
  refine ⟨s, hrun, htimely, ?_⟩
  intro hall
  obtain ⟨ts, hmem, htime⟩ := hall _ (by rw [hrecords]; exact List.mem_cons_self) rfl
  rw [htransmitted] at hmem
  have hts : ts = ⟨6, 0⟩ := by simpa using hmem
  rw [hts] at htime
  simp at htime

end PktSender.Latch
