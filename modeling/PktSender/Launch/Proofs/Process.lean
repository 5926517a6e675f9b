/-
How CTRL-C brings the process to an end.

# After the first

`rest` is what is left of an lcore's round over its TX ports. No step makes it
longer while no TX job runs, and each data burst takes its port from it: every
port is given one more burst at most (`ctrlC_stops`).

# After the second

`left` bounds the steps an lcore still has, and each of its own steps takes one
away. Only an lcore that is stuck in `__send_burst` stays.

# The end

`main` comes to `port_close` only after two signals, and when all lcores have
left (`closed_quiet`): no thread uses a port from there on. This also holds of a
process that was signalled during start-up (`launched_of_run`).
-/
import PktSender.Launch.Process
import PktSender.Launch.Proofs.Rounds
import PktSender.Signal.Proofs.Stop

namespace PktSender.Launch

open Port (Job portIsEnabled rxqRx txqTx)
open Transmitter (Call)

variable {c : Cfg} {s s' : Sys} {a : Act} {l q : UInt8} {p p' : Process} {e : Event}

-- ================================================================ one process

/-- What a step of the process is: one of the signal's model, which leaves the
threads as they are, or one of a thread that finds what is in `job_state`. -/
theorem Process.step_cases (h : Process.step c p e = some p') :
    (p'.sys = p.sys ∧ ((e = .sigint ∧ Signal.step p.signal .sigint = some p'.signal) ∨
      (e = .main ∧ p.returns c ∧ Signal.step p.signal (.main true) = some p'.signal))) ∨
    (p'.signal = p.signal ∧ ∃ act, e = .thread act ∧ act.reads p.signal.jobState ∧ p.runs act ∧
      Launch.step c p.sys act = some p'.sys) := by
  cases e with
  | sigint =>
      obtain ⟨signal, hsignal, rfl⟩ := Option.map_eq_some_iff.mp h
      exact .inl ⟨rfl, .inl ⟨rfl, hsignal⟩⟩
  | main =>
      rw [Process.step] at h
      split at h
      case isFalse => cases h
      case isTrue hret =>
        obtain ⟨signal, hsignal, rfl⟩ := Option.map_eq_some_iff.mp h
        exact .inl ⟨rfl, .inr ⟨rfl, hret, hsignal⟩⟩
  | thread act =>
      rw [Process.step] at h
      split at h
      case isFalse => cases h
      case isTrue hact =>
        obtain ⟨sys, hsys, rfl⟩ := Option.map_eq_some_iff.mp h
        rw [Bool.and_eq_true] at hact
        exact .inr ⟨rfl, act, rfl, hact.1, hact.2, hsys⟩

/-- `main` is in one of its last calls. -/
def late : Signal.Pc → Bool
  | .closing => true
  | .probeStop => true
  | .statStop => true
  | .exited _ => true
  | _ => false

/-- What holds of a process at any time after its launch. -/
structure Launched (c : Cfg) (p : Process) : Prop where
  ready : Ready c p.sys
  shared : Shared c p.sys
  idle : ∀ lcoreid, lcoreid ∉ slaves c → p.sys.pc lcoreid = .done
  counter : p.signal.handled % 256 = p.signal.sigRecved.toNat
  running : p.signal.handled < 2 → p.signal.jobState &&& 1 ≠ 0
  main : p.signal.main = .launch ∨ p.signal.main = .waitLcore ∨ late p.signal.main
  waits : p.signal.main ≠ .launch → 2 ≤ p.signal.handled ∧ p.sys.probe.pc = .idle
  closes : late p.signal.main → ∀ lcoreid, p.sys.pc lcoreid = .done

/-- The first signal leaves the RX job running. -/
theorem handler_running {sg : Signal.State} (hcounter : sg.handled % 256 = sg.sigRecved.toNat)
    (hrun : sg.handled < 2 → sg.jobState &&& 1 ≠ 0) (hlt : sg.handled + 1 < 2) :
    (Signal.pktsenderSigHandler sg Signal.sigint).jobState &&& 1 ≠ 0 := by
  have hzero : sg.handled = 0 := by omega
  have hrecved : sg.sigRecved = 0 := by
    rw [hzero] at hcounter
    exact UInt8.toNat_inj.mp hcounter.symm
  have hmask : ~~~((1 : UInt8) <<< Signal.lcoreJobTx) &&& 1 = 1 := by decide
  simp only [Signal.pktsenderSigHandler, if_true, if_pos hrecved]
  rw [UInt8.and_assoc, hmask]
  exact hrun (by omega)

/-- With no job running two signals were handled. -/
theorem Launched.two_le (h : Launched c p) (hjob : p.signal.jobState &&& Signal.jobFlagsAll = 0) :
    2 ≤ p.signal.handled := by
  by_contra hlt
  apply h.running (Nat.lt_of_not_le hlt)
  have hone : (1 : UInt8) = Signal.jobFlagsAll &&& 1 := by decide
  rw [hone, ← UInt8.and_assoc, hjob, UInt8.zero_and]

/-- An lcore that left stays away. -/
theorem step_done (h : Launch.step c s a = some s') (hdone : s.pc l = .done) :
    s'.pc l = .done := by
  by_cases hof : a.isOf l = true
  · cases a with
    | probe act => cases hof
    | lcore lcoreid jobState call =>
        obtain rfl : lcoreid = l := of_decide_eq_true hof
        exact absurd hdone (lcoreStep_cases h).1
  · exact (step_other h (Bool.not_eq_true _ ▸ hof)).2.1.trans hdone

/-- Only the measurement loop runs the callback. -/
theorem step_probe_of_lcore {jobState : UInt8} {call : Call}
    (h : Launch.step c s (.lcore l jobState call) = some s') : s'.probe = s.probe := by
  obtain ⟨-, ⟨pc, rfl⟩ | ⟨_, pc, -, rfl⟩ | ⟨k, port, -, rfl⟩⟩ := lcoreStep_cases h
  · rfl
  · rfl
  · exact (portTransmit_pc s l port k call).1

/-- Nothing but the driver's releases of accepted probes. -/
def Released (s s' : Sys) : Prop :=
  ∃ refcnt probeMp driver,
    s' = { s with
      probe := { s.probe with refcnt := refcnt, probeMp := probeMp, driver := driver } }

theorem Released.refl (s : Sys) : Released s s := ⟨_, _, _, rfl⟩

theorem Released.trans {s₁ s₂ s₃ : Sys} (h : Released s₁ s₂) (h' : Released s₂ s₃) :
    Released s₁ s₃ := by
  obtain ⟨_, _, _, rfl⟩ := h
  obtain ⟨_, _, _, rfl⟩ := h'
  exact ⟨_, _, _, rfl⟩

theorem Released.probe_pc (h : Released s s') : s'.probe.pc = s.probe.pc := by
  obtain ⟨_, _, _, rfl⟩ := h
  rfl

/-- When the callback is not running, the driver is. -/
theorem step_completes {act : Probe.Act} (hruns : p.runs (.probe act))
    (hne : p.signal.main ≠ .launch) (h : Launch.step c s (.probe act) = some s') :
    Released s s' := by
  cases act with
  | complete m =>
      obtain ⟨probe, hprobe, rfl⟩ := Option.map_eq_some_iff.mp h
      simp only [Probe.step] at hprobe
      split at hprobe
      case isFalse => cases hprobe
      case isTrue =>
        obtain rfl := Option.some.inj hprobe
        exact ⟨_, _, _, rfl⟩
  | _ => exact absurd (beq_iff_eq.mp hruns) hne

/-- However many signals were handled during start-up, the store of `main` leads to
one of these processes. -/
theorem launched_of_run {acts : List Signal.Act} {sg : Signal.State} (s : Sys)
    (hrun : Lts.run Signal.step Signal.start acts = some sg) (hmain : sg.main = .setJobState) :
    Signal.step sg (.main true) = some (launched sg.handled s).signal := by
  simp only [Signal.step, Signal.mainStep, hmain, launched, Signal.run_counter hrun]

theorem launched_launched {s : Sys} (h : startUp c = some s) (early : ℕ) :
    Launched c (launched early s) where
  ready := startUp_ready h
  shared := startUp_shared h
  idle := by
    obtain ⟨_, mapped, _, _, _, _, _, -, -, -, -, -, -, -, rfl⟩ := startUp_eq_some h
    intro lcoreid hslave
    show launch c mapped.lcoreList lcoreid = .done
    unfold launch
    split_ifs with hon hflags hstat
    · rfl
    · rfl
    · rfl
    · refine absurd ?_ hslave
      have hon : c.eal.rteLcoreIsEnabled lcoreid = true := by simpa using hon
      refine List.mem_filter.mpr ⟨Port.mem_portIds.mpr (c.eal.lt_of_enabled _ hon), ?_⟩
      rw [hon, Bool.true_and]
      exact bne_iff_ne.mpr hstat
  counter := UInt8.toNat_ofNat'.symm
  running := fun _ => by
    show Signal.jobFlagsAll &&& 1 ≠ 0
    decide
  main := .inl rfl
  waits := fun hne => absurd rfl hne
  closes := fun hlate => by cases hlate

/-- A signal. -/
theorem Launched.sigint (h : Launched c p)
    (hsignal : Signal.step p.signal .sigint = some p'.signal) (hsys : p'.sys = p.sys) :
    Launched c p' := by
  simp only [Signal.step] at hsignal
  split at hsignal
  case isTrue => cases hsignal
  case isFalse =>
    have hrunning := handler_running h.counter h.running
    have hsg := Option.some.inj hsignal
    have hmain : p'.signal.main = p.signal.main := by
      rw [← hsg]
      rfl
    have hhandled : p'.signal.handled = p.signal.handled + 1 := by
      rw [← hsg]
      rfl
    rw [hsg, ← hhandled] at hrunning
    refine
      { ready := hsys ▸ h.ready, shared := hsys ▸ h.shared, idle := hsys ▸ h.idle
        counter := ?_, running := hrunning, main := hmain ▸ h.main, waits := ?_
        closes := hmain ▸ hsys ▸ h.closes }
    · rw [← hsg]
      exact Signal.pktsenderSigHandler_counter h.counter
    · intro hne
      rw [hmain] at hne
      obtain ⟨htwo, hidle⟩ := h.waits hne
      exact ⟨hhandled ▸ Nat.le_succ_of_le htwo, hsys ▸ hidle⟩

/-- A call of `main` comes back. -/
theorem Launched.mainStep (h : Launched c p) (hret : p.returns c)
    (hsignal : Signal.step p.signal (.main true) = some p'.signal) (hsys : p'.sys = p.sys) :
    Launched c p' := by
  have hmove : ∀ pc, p'.signal = { p.signal with main := pc } →
      (pc = .launch ∨ pc = .waitLcore ∨ late pc) →
      (pc ≠ .launch → 2 ≤ p.signal.handled ∧ p.sys.probe.pc = .idle) →
      (late pc → ∀ lcoreid, p.sys.pc lcoreid = .done) → Launched c p' := by
    intro pc hsg hmain hwaits hcloses
    exact
      { ready := hsys ▸ h.ready, shared := hsys ▸ h.shared, idle := hsys ▸ h.idle
        counter := hsg ▸ h.counter, running := hsg ▸ h.running, main := hsg ▸ hmain
        waits := hsg ▸ hsys ▸ hwaits, closes := hsg ▸ hsys ▸ hcloses }
  simp only [Signal.step, Signal.mainStep] at hsignal
  unfold Process.returns at hret
  rcases h.main with hmain | hmain | hlate
  · -- the measurement loop found no job running
    rw [hmain] at hsignal hret
    rw [Bool.and_eq_true, beq_iff_eq, decide_eq_true_eq] at hret
    exact hmove _ (Option.some.inj hsignal).symm (.inr (.inl rfl))
      (fun _ => ⟨h.two_le hret.1, hret.2⟩) fun hlate => by cases hlate
  · rw [hmain] at hsignal hret
    refine hmove _ (Option.some.inj hsignal).symm (.inr (.inr rfl))
      (fun _ => h.waits (by simp [hmain])) fun _ lcoreid => ?_
    by_cases hslave : lcoreid ∈ slaves c
    · exact of_decide_eq_true (List.all_eq_true.mp hret lcoreid hslave)
    · exact h.idle lcoreid hslave
  · have hnext : ∀ {pc}, some { p.signal with main := pc } = some p'.signal → late pc →
        Launched c p' := fun hsg hpc =>
      hmove _ (Option.some.inj hsg).symm (.inr (.inr hpc))
        (fun _ => h.waits fun hmain => by rw [hmain] at hlate; cases hlate)
        fun _ => h.closes hlate
    cases hmain : p.signal.main with
    | closing =>
        rw [hmain] at hsignal
        exact hnext hsignal rfl
    | probeStop =>
        rw [hmain] at hsignal
        exact hnext hsignal rfl
    | statStop =>
        rw [hmain] at hsignal
        exact hnext hsignal rfl
    | exited ret =>
        rw [hmain] at hsignal
        cases hsignal
    | _ =>
        rw [hmain] at hlate
        cases hlate

/-- A step of a thread. -/
theorem Launched.thread {act : Act} (h : Launched c p) (hruns : p.runs act)
    (hstep : Launch.step c p.sys act = some p'.sys) (hsignal : p'.signal = p.signal) :
    Launched c p' where
  ready := h.ready.step hstep
  shared := h.shared.of_lcoreList_eq (Launch.step_cases hstep).1.lcoreList
  idle := fun lcoreid hslave => step_done hstep (h.idle lcoreid hslave)
  counter := hsignal ▸ h.counter
  running := hsignal ▸ h.running
  main := hsignal ▸ h.main
  waits := by
    rw [hsignal]
    intro hne
    obtain ⟨htwo, hidle⟩ := h.waits hne
    refine ⟨htwo, ?_⟩
    cases act with
    | lcore lcoreid jobState call =>
        rw [step_probe_of_lcore hstep]
        exact hidle
    | probe act =>
        rw [(step_completes hruns hne hstep).probe_pc]
        exact hidle
  closes := by
    rw [hsignal]
    exact fun hlate lcoreid => step_done hstep (h.closes hlate lcoreid)

theorem Launched.step (h : Launched c p) (hstep : Process.step c p e = some p') :
    Launched c p' := by
  rcases Process.step_cases hstep with
    ⟨hsys, ⟨-, hsignal⟩ | ⟨-, hret, hsignal⟩⟩ | ⟨hsignal, act, -, -, hruns, hact⟩
  · exact h.sigint hsignal hsys
  · exact h.mainStep hret hsignal hsys
  · exact h.thread hruns hact hsignal

-- ============================================================ what is left

variable {rx tx : List UInt8} {flags jobState : UInt8} {pc pc' : Pc}

/-- The steps an lcore still has at most when no job runs. -/
def left (rx tx : List UInt8) : Pc → ℕ
  | .head => 1
  | .rx k => rx.length - k + 2
  | .tx k => tx.length - k + 2
  | .sending => 0
  | .done => 0

/-- What is left of the round over the TX ports. -/
def rest (tx : List UInt8) : Pc → List UInt8
  | .tx k => tx.drop k
  | _ => []

/-- A step with no job running. -/
theorem Moves.left_lt (h : Moves rx tx flags 0 pc pc') : left rx tx pc' < left rx tx pc := by
  cases h with
  | leave => exact Nat.one_pos
  | enter hflags => exact absurd UInt8.zero_and hflags
  | poll hport =>
      have hlt := (List.getElem?_eq_some_iff.mp hport).1
      simp only [left]
      omega
  | skip =>
      simp only [left]
      omega
  | turn _ hjob => exact absurd UInt8.zero_and hjob
  | offer hport hpc =>
      have hlt := (List.getElem?_eq_some_iff.mp hport).1
      rcases hpc with rfl | rfl | rfl
      · simp only [left]
        omega
      · exact Nat.succ_pos _
      · exact Nat.succ_pos _
  | again =>
      simp only [left]
      omega

/-- A step with no TX job running: the port it offers is taken from what is left
of the round. -/
theorem Moves.rest_le (h : Moves rx tx flags jobState pc pc')
    (hjob : jobState &&& (1 <<< Probe.lcoreJobTx) = 0) (q : UInt8) :
    (offered tx pc).toList.count q + (rest tx pc').count q ≤ (rest tx pc).count q := by
  cases h with
  | turn _ hrun => exact absurd hjob hrun
  | @offer k port pc' hport hpc =>
      obtain ⟨hlt, rfl⟩ := List.getElem?_eq_some_iff.mp hport
      rw [offered, hport, rest, List.drop_eq_getElem_cons hlt, List.count_cons, Nat.add_comm,
        Option.toList_some, List.count_singleton]
      have hrest : (rest tx pc').count q ≤ (tx.drop (k + 1)).count q := by
        rcases hpc with rfl | rfl | rfl
        · exact Nat.le_refl _
        · exact Nat.zero_le _
        · exact Nat.zero_le _
      exact Nat.add_le_add_right hrest _
  | again hport =>
      rw [offered, hport]
      exact Nat.zero_le _
  | _ => exact Nat.le_refl _

theorem left_le (rx tx : List UInt8) (pc : Pc) : left rx tx pc ≤ max rx.length tx.length + 2 := by
  cases pc with
  | sending => exact Nat.zero_le _
  | done => exact Nat.zero_le _
  | _ =>
      simp only [left]
      omega

/-- Nobody bursts on the data queue of a port but its lcore, when it offers it. -/
theorem step_txBursts_le (hr : Ready c s)
    (howner : ∀ l', l' ≠ c.statLcore → q ∈ (s.lcoreList l').jobs .tx → l' = l)
    (h : Launch.step c s a = some s') :
    s'.bursts.count (.tx q txqTx)
      ≤ s.bursts.count (.tx q txqTx) + (offerOf l s a).count q := by
  rcases step_txPort hr h with
    ⟨lcoreid, jobState, call, k, port, rfl, hpc, htx, hmem, rfl⟩ | ⟨hquiet, -⟩
  · by_cases hport : port = q
    · subst hport
      obtain rfl := howner lcoreid (hr.pc lcoreid (by simp [hpc])) hmem
      have hoffer : offerOf lcoreid s (.lcore lcoreid jobState call) = [port] := by
        rw [offerOf, if_pos rfl, htx]
        rfl
      have hone := (@portTransmit_own s port lcoreid k call (hr.queueid port)).1
      have hlen : (dueBurst (s.ports.portList port).txCtl call).toList.length ≤ 1 :=
        Option.length_toList_le
      rw [hone, hoffer, List.count_singleton_self]
      exact Nat.add_le_add_left hlen _
    · rw [(portTransmit_elsewhere s lcoreid port k call).bursts q (Ne.symm hport)]
      exact Nat.le_add_right _ _
  · rw [hquiet.bursts]
    exact Nat.le_add_right _ _

/-- The data bursts of a port so far, with what its lcore still has to offer. -/
def owed (q l : UInt8) (s : Sys) : ℕ :=
  s.bursts.count (.tx q txqTx) + (rest ((s.lcoreList l).jobs .tx) (s.pc l)).count q

theorem step_owed_le (hr : Ready c s)
    (howner : ∀ l', l' ≠ c.statLcore → q ∈ (s.lcoreList l').jobs .tx → l' = l)
    (hreads : a.reads jobState) (hjob : jobState &&& (1 <<< Probe.lcoreJobTx) = 0)
    (h : Launch.step c s a = some s') : owed q l s' ≤ owed q l s := by
  have hbursts := step_txBursts_le hr howner h
  have hrest : (offerOf l s a).count q + (rest ((s'.lcoreList l).jobs .tx) (s'.pc l)).count q
      ≤ (rest ((s.lcoreList l).jobs .tx) (s.pc l)).count q := by
    by_cases hof : a.isOf l = true
    · cases a with
      | probe act => cases hof
      | lcore lcoreid seen call =>
          obtain rfl : lcoreid = l := of_decide_eq_true hof
          obtain rfl : seen = jobState := beq_iff_eq.mp hreads
          obtain ⟨hlist, -, hmoves⟩ :=
            lcoreStep_moves (h : lcoreStep s lcoreid seen call = some s')
          rw [offerOf, if_pos rfl, txPort_eq, hlist]
          exact hmoves.rest_le hjob q
    · obtain ⟨hlist, hpc, -, hoffer⟩ := step_other h (Bool.not_eq_true _ ▸ hof)
      rw [hlist, hpc, hoffer, List.count_nil, Nat.zero_add]
  unfold owed
  omega

-- ================================================================= any run

variable {s₀ : Sys} {acts : List Event}

theorem run_launched (h : Launched c p) (hrun : Lts.run (Process.step c) p acts = some p') :
    Launched c p' :=
  Lts.run_invariant_all (fun hp hstep => Launched.step hp hstep) h hrun

/-- No signal is forgotten. -/
theorem step_handled (h : Process.step c p e = some p') :
    p.signal.handled ≤ p'.signal.handled := by
  rcases Process.step_cases h with
    ⟨-, ⟨-, hsignal⟩ | ⟨-, -, hsignal⟩⟩ | ⟨hsignal, -⟩
  · simp only [Signal.step] at hsignal
    split at hsignal
    case isTrue => cases hsignal
    case isFalse =>
      rw [← Option.some.inj hsignal]
      exact Nat.le_succ _
  · rcases Signal.mainStep_cases hsignal with ⟨-, pc, hsg⟩ | ⟨-, hsg⟩
    · rw [hsg]
    · rw [hsg]
  · rw [hsignal]

theorem step_lcoreList (h : Process.step c p e = some p') :
    p'.sys.lcoreList = p.sys.lcoreList := by
  rcases Process.step_cases h with ⟨hsys, -⟩ | ⟨-, act, -, -, -, hact⟩
  · rw [hsys]
  · exact (Launch.step_cases hact).1.lcoreList

/-- A step of this lcore. -/
def Event.isOf (l : UInt8) : Event → Bool
  | .thread act => act.isOf l
  | _ => false

/-- What the handler promises is kept: the store of `main` is behind it. -/
theorem Launched.handled (h : Launched c p) (hh : Signal.Handled p.signal)
    (hstep : Process.step c p e = some p') : Signal.Handled p'.signal := by
  have hne : p.signal.main ≠ .setJobState := by
    intro hmain
    rcases h.main with heq | heq | hlate
    · rw [hmain] at heq
      cases heq
    · rw [hmain] at heq
      cases heq
    · rw [hmain] at hlate
      cases hlate
  have hstore : ∀ a, Signal.StoreFirst p.signal a := fun _ hmain => absurd hmain hne
  rcases Process.step_cases hstep with
    ⟨-, ⟨-, hsignal⟩ | ⟨-, -, hsignal⟩⟩ | ⟨hsignal, -⟩
  · exact hh.step (hstore _) hsignal
  · exact hh.step (hstore _) hsignal
  · rw [hsignal]
    exact hh

theorem run_signalHandled (h : Launched c p) (hh : Signal.Handled p.signal)
    (hrun : Lts.run (Process.step c) p acts = some p') : Signal.Handled p'.signal := by
  have hrule : Launched c p' ∧ Signal.Handled p'.signal :=
    Lts.run_invariant_all (I := fun t => Launched c t ∧ Signal.Handled t.signal)
      (fun hI hstep => ⟨hI.1.step hstep, hI.1.handled hI.2 hstep⟩) ⟨h, hh⟩ hrun
  exact hrule.2

/-- A process that handled so many signals, all after the launch, with these
lists. -/
def Stopping (c : Cfg) (n : ℕ) (s₀ : Sys) (p : Process) : Prop :=
  Launched c p ∧ Signal.Handled p.signal ∧ n ≤ p.signal.handled
    ∧ p.sys.lcoreList = s₀.lcoreList

theorem Stopping.step {n : ℕ} (h : Stopping c n s₀ p) (hstep : Process.step c p e = some p') :
    Stopping c n s₀ p' := by
  obtain ⟨hlaunched, hh, hhandled, hlist⟩ := h
  exact ⟨hlaunched.step hstep, hlaunched.handled hh hstep,
    hhandled.trans (step_handled hstep), (step_lcoreList hstep).trans hlist⟩

/-- After the first signal: what is owed to a port only gets less. -/
theorem run_owed_le (h : Launched c p) (hh : Signal.Handled p.signal) (hone : 1 ≤ p.signal.handled)
    (howner : ∀ l', l' ≠ c.statLcore → q ∈ (p.sys.lcoreList l').jobs .tx → l' = l)
    (hrun : Lts.run (Process.step c) p acts = some p') : owed q l p'.sys ≤ owed q l p.sys := by
  have hrule := @Lts.run_countP Process Event (Process.step c) (Stopping c 1 p.sys)
    (fun p => owed q l p.sys) (fun _ => false)
    (fun {t e t'} hI hstep => by
      refine ⟨hI.step hstep, ?_⟩
      obtain ⟨hlaunched, hsignal, hhandled, hlist⟩ := hI
      rw [if_neg Bool.false_ne_true, Nat.zero_add]
      rcases Process.step_cases hstep with ⟨hsys, -⟩ | ⟨-, act, -, hreads, -, hact⟩
      · rw [hsys]
      · exact step_owed_le hlaunched.ready (hlist ▸ howner) hreads
          (hsignal.stopped.tx hhandled) hact)
    acts p p' ⟨h, hh, hone, rfl⟩ hrun
  exact (Nat.le_add_left _ _).trans hrule

/-- After the second: every step of an lcore is one less to come. -/
theorem run_left_le (h : Launched c p) (hh : Signal.Handled p.signal)
    (htwo : 2 ≤ p.signal.handled) (l : UInt8)
    (hrun : Lts.run (Process.step c) p acts = some p') :
    acts.countP (Event.isOf l)
        + left ((p.sys.lcoreList l).jobs .rx) ((p.sys.lcoreList l).jobs .tx) (p'.sys.pc l)
      ≤ left ((p.sys.lcoreList l).jobs .rx) ((p.sys.lcoreList l).jobs .tx) (p.sys.pc l) :=
  @Lts.run_countP Process Event (Process.step c) (Stopping c 2 p.sys)
    (fun t => left ((p.sys.lcoreList l).jobs .rx) ((p.sys.lcoreList l).jobs .tx) (t.sys.pc l))
    (Event.isOf l)
    (fun {t e t'} hI hstep => by
      refine ⟨hI.step hstep, ?_⟩
      obtain ⟨hlaunched, hsignal, hhandled, hlist⟩ := hI
      rcases Process.step_cases hstep with
        ⟨hsys, ⟨rfl, -⟩ | ⟨rfl, -⟩⟩ | ⟨-, act, rfl, hreads, -, hact⟩
      · rw [hsys]
        exact Nat.le_of_eq (Nat.zero_add _)
      · rw [hsys]
        exact Nat.le_of_eq (Nat.zero_add _)
      · by_cases hof : act.isOf l = true
        · cases act with
          | probe act => cases hof
          | lcore lcoreid seen call =>
              obtain rfl : lcoreid = l := of_decide_eq_true hof
              obtain ⟨-, -, hmoves⟩ :=
                lcoreStep_moves (hact : lcoreStep t.sys lcoreid seen call = some t'.sys)
              have hseen : seen = 0 := by
                rw [beq_iff_eq.mp hreads, hsignal.stopped.all hhandled]
              rw [hseen, hlist] at hmoves
              have hlt := hmoves.left_lt
              rw [Event.isOf, hof, if_pos rfl]
              omega
        · rw [Event.isOf, if_neg hof, Nat.zero_add,
            (step_other hact (Bool.not_eq_true _ ▸ hof)).2.1])
    acts p p' ⟨h, hh, htwo, rfl⟩ hrun

/-- One step once the ports are being closed. -/
theorem step_late {t t' : Process} {sys : Sys}
    (h : Launched c t ∧ late t.signal.main ∧ Released sys t.sys)
    (hstep : Process.step c t e = some t') :
    Launched c t' ∧ late t'.signal.main ∧ Released sys t'.sys := by
  obtain ⟨hlaunched, hlate, hquiet⟩ := h
  refine ⟨hlaunched.step hstep, ?_⟩
  rcases Process.step_cases hstep with
    ⟨hsys, ⟨-, hsignal⟩ | ⟨-, -, hsignal⟩⟩ | ⟨hsignal, act, -, -, hruns, hact⟩
  · refine ⟨?_, hsys ▸ hquiet⟩
    simp only [Signal.step] at hsignal
    split at hsignal
    case isTrue => cases hsignal
    case isFalse =>
      rw [← Option.some.inj hsignal]
      exact hlate
  · refine ⟨?_, hsys ▸ hquiet⟩
    simp only [Signal.step, Signal.mainStep] at hsignal
    cases hmain : t.signal.main with
    | exited ret =>
        rw [hmain] at hsignal
        cases hsignal
    | closing | probeStop | statStop =>
        rw [hmain] at hsignal
        rw [← Option.some.inj hsignal]
        rfl
    | _ =>
        rw [hmain] at hlate
        cases hlate
  · refine ⟨hsignal ▸ hlate, ?_⟩
    have hne : t.signal.main ≠ .launch := by
      intro hmain
      rw [hmain] at hlate
      cases hlate
    cases act with
    | lcore lcoreid seen call =>
        -- no lcore is there to take one
        exact absurd (hlaunched.closes hlate lcoreid)
          (lcoreStep_cases (hact : lcoreStep t.sys lcoreid seen call = some t'.sys)).1
    | probe act => exact hquiet.trans (step_completes hruns hne hact)

/-- An lcore that neither left nor is stuck can go on. -/
theorem exists_lcoreStep (hdone : s.pc l ≠ .done) (hstuck : s.pc l ≠ .sending)
    (jobState : UInt8) (call : Call) : (lcoreStep s l jobState call).isSome := by
  unfold lcoreStep
  simp only
  cases hpc : s.pc l with
  | head =>
      simp only
      split <;> rfl
  | rx k =>
      simp only
      cases ((s.lcoreList l).jobs .rx)[k]? with
      | some port => rfl
      | none =>
          simp only
          split <;> rfl
  | tx k =>
      simp only
      cases ((s.lcoreList l).jobs .tx)[k]? with
      | some port => rfl
      | none => rfl
  | sending => exact absurd hpc hstuck
  | done => exact absurd hpc hdone

/-- Before the first signal. -/
theorem handled_launched {s : Sys} : Signal.Handled (launched 0 s).signal where
  counter := rfl
  stopped :=
    ⟨fun h => absurd h (Nat.not_succ_le_zero _), fun h => absurd h (Nat.not_succ_le_zero _)⟩

/-- What CTRL-C does to a process that was launched before it. Whatever the
threads and `main` do after the first signal, each port is given one more data
burst at most. After the second, an lcore takes at most two steps more than its
longer list has ports; and until it left it can always take one, unless it is
stuck in `__send_burst`. -/
theorem ctrlC_stops {before after : List Event} (hstart : startUp c = some s₀)
    (hrun : Lts.run (Process.step c) (launched 0 s₀) before = some p)
    (hafter : Lts.run (Process.step c) p after = some p') :
    (1 ≤ p.signal.handled → ∀ port,
      p'.sys.bursts.count (.tx port txqTx) ≤ p.sys.bursts.count (.tx port txqTx) + 1) ∧
    (2 ≤ p.signal.handled → ∀ lcoreid,
      after.countP (Event.isOf lcoreid)
        ≤ max ((s₀.lcoreList lcoreid).jobs .rx).length ((s₀.lcoreList lcoreid).jobs .tx).length
          + 2 ∧
      (p'.sys.pc lcoreid = .done ∨ p'.sys.pc lcoreid = .sending ∨ ∀ call,
        (Process.step c p' (.thread (.lcore lcoreid p'.signal.jobState call))).isSome)) := by
  have hlaunched := run_launched (launched_launched hstart 0) hrun
  have hsignal : Signal.Handled p.signal :=
    run_signalHandled (launched_launched hstart 0) handled_launched hrun
  have hlist : p.sys.lcoreList = s₀.lcoreList :=
    Lts.run_invariant_all (I := fun t : Process => t.sys.lcoreList = s₀.lcoreList)
      (fun ht hstep => (step_lcoreList hstep).trans ht) rfl hrun
  constructor
  · intro hone port
    obtain ⟨l, howner⟩ : ∃ l, ∀ l', l' ≠ c.statLcore → port ∈ (p.sys.lcoreList l').jobs .tx →
        l' = l := by
      by_cases hl : ∃ l, l ≠ c.statLcore ∧ port ∈ (p.sys.lcoreList l).jobs .tx
      · obtain ⟨l, hl, hmem⟩ := hl
        exact ⟨l, fun l' hl' hmem' => hlaunched.shared.owner .tx port l' l hl' hl hmem' hmem⟩
      · exact ⟨0, fun l' hl' hmem' => absurd ⟨l', hl', hmem'⟩ hl⟩
    have howed := run_owed_le hlaunched hsignal hone howner hafter
    have hrest : (rest ((p.sys.lcoreList l).jobs .tx) (p.sys.pc l)).count port ≤ 1 := by
      cases hpc : p.sys.pc l with
      | tx k =>
          have hl := hlaunched.ready.pc l (by simp [hpc])
          exact List.nodup_iff_count_le_one.mp
            ((hlaunched.shared.nodup .tx l hl).sublist (List.drop_sublist k _)) port
      | _ => exact Nat.zero_le _
    unfold owed at howed
    omega
  · intro htwo lcoreid
    have hleft := run_left_le hlaunched hsignal htwo lcoreid hafter
    have hbound := left_le ((p.sys.lcoreList lcoreid).jobs .rx)
      ((p.sys.lcoreList lcoreid).jobs .tx) (p.sys.pc lcoreid)
    rw [hlist] at hleft hbound
    refine ⟨by omega, ?_⟩
    by_cases hdone : p'.sys.pc lcoreid = .done
    · exact .inl hdone
    by_cases hstuck : p'.sys.pc lcoreid = .sending
    · exact .inr (.inl hstuck)
    refine .inr (.inr fun call => ?_)
    obtain ⟨sys, hsys⟩ :=
      Option.isSome_iff_exists.mp (exists_lcoreStep hdone hstuck p'.signal.jobState call)
    simp [Process.step, Act.reads, Process.runs, Launch.step, hsys]

/-- One port, received on by lcore 1 and sent on by lcore 2. -/
def rxTxPort : Cfg := onePort [⟨0, .rx, 1⟩, ⟨0, .tx, 2⟩]

/-- Two signals find lcore 2 before its call of `port_transmit`: it makes its
burst, and takes the three steps it has. -/
theorem ctrlC_stops_rxTxPort :
    ∃ s₀ p p', startUp rxTxPort = some s₀ ∧
      Lts.run (Process.step rxTxPort) (launched 0 s₀)
        [.thread (.lcore 2 3 (.minimal 0)), .thread (.lcore 2 3 (.minimal 0)),
          .sigint, .sigint] = some p ∧
      Lts.run (Process.step rxTxPort) p
        [.thread (.lcore 2 0 (.minimal 5)), .thread (.lcore 2 0 (.minimal 0)),
          .thread (.lcore 2 0 (.minimal 0))] = some p' ∧
      p'.sys.bursts.count (.tx 0 txqTx) ≤ p.sys.bursts.count (.tx 0 txqTx) + 1 ∧
      3 ≤ max ((s₀.lcoreList 2).jobs .rx).length ((s₀.lcoreList 2).jobs .tx).length + 2 := by
  have h : ((startUp rxTxPort).bind fun s₀ =>
      (Lts.run (Process.step rxTxPort) (launched 0 s₀)
        [.thread (.lcore 2 3 (.minimal 0)), .thread (.lcore 2 3 (.minimal 0)),
          .sigint, .sigint]).bind fun p =>
        (Lts.run (Process.step rxTxPort) p
          [.thread (.lcore 2 0 (.minimal 5)), .thread (.lcore 2 0 (.minimal 0)),
            .thread (.lcore 2 0 (.minimal 0))]).map fun p' =>
          (p.signal.handled, p'.sys.bursts.count (.tx 0 txqTx))) = some (2, 1) := by
    decide +kernel
  obtain ⟨s₀, hstart, h⟩ := Option.bind_eq_some_iff.mp h
  obtain ⟨p, hrun, h⟩ := Option.bind_eq_some_iff.mp h
  obtain ⟨p', hafter, h⟩ := Option.map_eq_some_iff.mp h
  have hhandled : p.signal.handled = 2 := (Prod.mk.inj h).1
  obtain ⟨hone, htwo⟩ := ctrlC_stops hstart hrun hafter
  have hport := hone (by rw [hhandled]; decide) 0
  have hsteps := (htwo hhandled.ge 2).1
  exact ⟨s₀, p, p', hstart, hrun, hafter, hport, hsteps⟩

/-- When `main` comes to `port_close`, two signals were handled and every lcore
has left, whatever was handled during start-up. From there on no step of the
process touches the ports, the queues or the threads: the driver may still
release accepted probes, and `main` ends. -/
theorem closed_quiet {early : ℕ} {before after : List Event} (hstart : startUp c = some s₀)
    (hrun : Lts.run (Process.step c) (launched early s₀) before = some p)
    (hlate : late p.signal.main)
    (hafter : Lts.run (Process.step c) p after = some p') :
    2 ≤ p.signal.handled ∧ (∀ lcoreid, p.sys.pc lcoreid = .done) ∧ Released p.sys p'.sys := by
  have hlaunched := run_launched (launched_launched hstart early) hrun
  have hmain : p.signal.main ≠ .launch := by
    intro hmain
    rw [hmain] at hlate
    cases hlate
  refine ⟨(hlaunched.waits hmain).1, hlaunched.closes hlate, ?_⟩
  have hrule : Launched c p' ∧ late p'.signal.main ∧ Released p.sys p'.sys :=
    Lts.run_invariant_all (I := fun t => Launched c t ∧ late t.signal.main ∧ Released p.sys t.sys)
      (fun hI hstep => step_late hI hstep) ⟨hlaunched, hlate, .refl _⟩ hafter
  exact hrule.2.2

/-- One signal comes during start-up and one after the launch. Both lcores leave,
and `main` closes the ports. -/
theorem closed_quiet_rxTxPort :
    ∃ s₀ p p', startUp rxTxPort = some s₀ ∧
      Lts.run (Process.step rxTxPort) (launched 1 s₀)
        [.sigint, .main, .thread (.lcore 2 0 (.minimal 0)),
          .thread (.lcore 1 0 (.minimal 0)), .main] = some p ∧
      Lts.run (Process.step rxTxPort) p [.main, .sigint, .main, .main] = some p' ∧
      p.signal.main = .closing ∧ p.signal.handled = 2 ∧ p'.signal.main = .exited 0 ∧
      (∀ lcoreid, p.sys.pc lcoreid = .done) ∧ Released p.sys p'.sys := by
  have h : ((startUp rxTxPort).bind fun s₀ =>
      (Lts.run (Process.step rxTxPort) (launched 1 s₀)
        [.sigint, .main, .thread (.lcore 2 0 (.minimal 0)),
          .thread (.lcore 1 0 (.minimal 0)), .main]).bind fun p =>
        (Lts.run (Process.step rxTxPort) p [.main, .sigint, .main, .main]).map fun p' =>
          (p.signal.main, p.signal.handled, p'.signal.main))
      = some (.closing, 2, .exited 0) := by
    decide +kernel
  obtain ⟨s₀, hstart, h⟩ := Option.bind_eq_some_iff.mp h
  obtain ⟨p, hrun, h⟩ := Option.bind_eq_some_iff.mp h
  obtain ⟨p', hafter, h⟩ := Option.map_eq_some_iff.mp h
  obtain ⟨hmain, h⟩ := Prod.mk.inj h
  obtain ⟨hhandled, hexited⟩ := Prod.mk.inj h
  have hlate : late p.signal.main = true := by
    rw [hmain]
    rfl
  obtain ⟨-, hdone, hquiet⟩ := closed_quiet hstart hrun hlate hafter
  exact ⟨s₀, p, p', hstart, hrun, hafter, hmain, hhandled, hexited, hdone, hquiet⟩

end PktSender.Launch
