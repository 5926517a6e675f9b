/-
When CTRL-C stops the program.

# The counter and the store

`sig_recved` is the number of handled signals modulo 256, so the first two
are told apart, and whatever a later one does to `job_state` leaves it 0
(`Handled`). The one other write is the store of `main`. It undoes what was
stopped before it: a run keeps what CTRL-C promises exactly when no signal
was handled before that store (`stopped_iff`).
-/
import PktSender.Signal.Basic

namespace PktSender.Signal

variable {s s' : State} {a : Act}

-- ============================================================== the property

/-- What CTRL-C promises: the first one stops the TX jobs, the second all. -/
structure Stopped (s : State) : Prop where
  tx : 1 ≤ s.handled → s.jobState &&& (1 <<< lcoreJobTx) = 0
  all : 2 ≤ s.handled → s.jobState = 0

instance (s : State) : Decidable (Stopped s) :=
  decidable_of_iff ((1 ≤ s.handled → s.jobState &&& (1 <<< lcoreJobTx) = 0) ∧
    (2 ≤ s.handled → s.jobState = 0))
    ⟨fun h => ⟨h.1, h.2⟩, fun h => ⟨h.tx, h.all⟩⟩

/-- The store of `main` is not made after a signal was handled. -/
def StoreFirst (s : State) (a : Act) : Prop :=
  s.main = .setJobState → a ≠ .sigint → s.handled = 0

-- ================================================================== one step

/-- The counter counts, and what is stopped is stopped. -/
structure Handled (s : State) : Prop where
  counter : s.handled % 256 = s.sigRecved.toNat
  stopped : Stopped s

theorem handled_start : Handled start where
  counter := rfl
  stopped := by decide

/-- What a step of `main` can do: move, or make its store. -/
theorem mainStep_cases {ok : Bool} (h : mainStep s ok = some s') :
    (s.main ≠ .setJobState ∧ ∃ pc, s' = { s with main := pc }) ∨
    (s.main = .setJobState ∧ s' = { s with main := .launch, jobState := jobFlagsAll }) := by
  unfold mainStep at h
  cases hmain : s.main with
  | setJobState =>
      simp only [hmain] at h
      right
      exact ⟨rfl, (Option.some.inj h).symm⟩
  | exited ret =>
      simp only [hmain] at h
      cases h
  | _ =>
      simp only [hmain] at h
      left
      exact ⟨by simp, _, (Option.some.inj h).symm⟩

/-- The handler counts on, modulo 256. -/
theorem pktsenderSigHandler_counter (hcount : s.handled % 256 = s.sigRecved.toNat) :
    (pktsenderSigHandler s sigint).handled % 256
      = (pktsenderSigHandler s sigint).sigRecved.toNat := by
  show (s.handled + 1) % 256 = (s.sigRecved + 1).toNat
  rw [UInt8.toNat_add, ← hcount]
  simp

/-- The handler, for the first signal, the second and any later one. -/
theorem pktsenderSigHandler_handled (h : Handled s) :
    Handled (pktsenderSigHandler s sigint) := by
  obtain ⟨hcount, htx, hall⟩ := h
  refine ⟨pktsenderSigHandler_counter hcount, ?_, ?_⟩
  · intro _
    simp only [pktsenderSigHandler, if_true]
    split_ifs with h0 h1
    · rw [UInt8.and_assoc]
      have hmask : ~~~((1 : UInt8) <<< lcoreJobTx) &&& (1 <<< lcoreJobTx) = 0 := by decide
      rw [hmask, UInt8.and_zero]
    · exact UInt8.zero_and
    · apply htx
      have hne : s.sigRecved.toNat ≠ 0 := fun h => h0 (UInt8.toNat_inj.mp h)
      omega
  · intro hge
    have hge : 1 ≤ s.handled := by
      simp only [pktsenderSigHandler, if_true] at hge
      omega
    simp only [pktsenderSigHandler, if_true]
    split_ifs with h0 h1
    · -- the counter is 0 again: everything was stopped long ago
      have hzero : s.sigRecved.toNat = 0 := by simp [h0]
      rw [hall (by omega)]
      exact UInt8.zero_and
    · rfl
    · apply hall
      have hne : s.sigRecved.toNat ≠ 1 := fun h => h1 (UInt8.toNat_inj.mp h)
      have hne0 : s.sigRecved.toNat ≠ 0 := fun h => h0 (UInt8.toNat_inj.mp h)
      omega

/-- A step keeps the invariant when the store comes first. -/
theorem Handled.step (h : Handled s) (hstore : StoreFirst s a)
    (hstep : Signal.step s a = some s') : Handled s' := by
  cases a with
  | sigint =>
      simp only [Signal.step] at hstep
      split at hstep
      case isTrue => cases hstep
      case isFalse =>
        obtain rfl := Option.some.inj hstep
        exact pktsenderSigHandler_handled h
  | main ok =>
      rcases mainStep_cases hstep with ⟨-, pc, rfl⟩ | ⟨hmain, rfl⟩
      · exact ⟨h.counter, h.stopped.tx, h.stopped.all⟩
      · have hzero : s.handled = 0 := hstore hmain (by simp)
        refine ⟨h.counter, ?_, ?_⟩
        · intro hge
          simp only at hge
          omega
        · intro hge
          simp only at hge
          omega

-- ================================================================== any run

/-- Along any run from `s`, in every state it reaches. -/
def Always (P : State → Prop) (s : State) (acts : List Act) : Prop :=
  ∀ as, as <+: acts → ∀ s', Lts.run step s as = some s' → P s'

/-- `sig_recved` counts in every run, wherever the store comes. -/
theorem run_counter {acts : List Act} (hrun : Lts.run step start acts = some s) :
    s.sigRecved = UInt8.ofNat s.handled := by
  suffices hcount : s.handled % 256 = s.sigRecved.toNat from
    UInt8.toNat_inj.mp (UInt8.toNat_ofNat'.trans hcount).symm
  refine Lts.run_invariant_all (I := fun s : State => s.handled % 256 = s.sigRecved.toNat)
    (fun {s a s'} hI hstep => ?_) rfl hrun
  cases a with
  | sigint =>
      simp only [Signal.step] at hstep
      split at hstep
      case isTrue => cases hstep
      case isFalse =>
        rw [← Option.some.inj hstep]
        exact pktsenderSigHandler_counter hI
  | main ok =>
      rcases mainStep_cases hstep with ⟨-, pc, rfl⟩ | ⟨-, rfl⟩
      · exact hI
      · exact hI

/-- A store made too late breaks the promise at once. -/
theorem storeFirst_of_always {acts : List Act} (h : Always Stopped s acts) :
    Lts.AllSteps step StoreFirst s acts := by
  induction acts generalizing s with
  | nil => trivial
  | cons a acts ih =>
      refine ⟨?_, ?_⟩
      · intro hmain hne
        by_contra hhandled
        cases a with
        | sigint => exact hne rfl
        | main ok =>
            have hstep : step s (.main ok)
                = some { s with main := .launch, jobState := jobFlagsAll } := by
              simp [step, mainStep, hmain]
            have hstopped := h [.main ok] (by simp) _ (by rw [Lts.run_cons, hstep]; rfl)
            have htx := hstopped.tx (Nat.one_le_iff_ne_zero.mpr hhandled)
            have hrunning : jobFlagsAll &&& (1 <<< lcoreJobTx) ≠ 0 := by decide
            exact hrunning htx
      · intro s₁ hstep
        apply ih
        intro as has s' hrun
        apply h (a :: as) (List.cons_prefix_cons.mpr ⟨rfl, has⟩)
        rw [Lts.run_cons, hstep]
        exact hrun

/-- In a run from the installation of the handler on, CTRL-C keeps what it
promises in every state exactly when `main` makes its store before a signal
was handled. -/
theorem stopped_iff (acts : List Act) :
    Always Stopped start acts ↔ Lts.AllSteps step StoreFirst start acts := by
  constructor
  · exact storeFirst_of_always
  · intro h as has s' hrun
    have hinv : Handled s' :=
      Lts.run_invariant (P := StoreFirst) Handled.step handled_start (h.initial has) hrun
    exact hinv.stopped

/-- Two signals during start-up: the store of `main` sets all jobs running
again, and the next signals find a counter that is past 1. -/
theorem not_stopped_two_signals :
    ∃ s', Lts.run step start
        ([.sigint, .sigint] ++ List.replicate 9 (.main true) ++ [.sigint]) = some s' ∧
      s'.jobState = jobFlagsAll ∧ ¬Stopped s' := by
  refine ⟨{ jobState := 3, sigRecved := 3, main := .launch, handled := 3 }, ?_, ?_, ?_⟩
  · rfl
  · rfl
  · decide

end PktSender.Signal
