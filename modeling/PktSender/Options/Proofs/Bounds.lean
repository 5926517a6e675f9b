/-
Where the check of the mappings stays inside the array, on the command lines
that are accepted.

The options leave the array within its bounds, and the pointer to it set exactly
when `--config` was one of them (`parseArgs_parsed`): nothing else sets it, and
a configuration that is refused ends the program. The check then uses the
pointer whether it was set or not.
-/
import PktSender.Mapping.Proofs.Limit
import PktSender.Options.Proofs.Errno
import PktSender.Options.Proofs.Portmask

namespace PktSender.Options

open Mapping (LcoreParams Main StaysInside validKeys maxLcoreParams checkMapping)
open Port (Eal portIsEnabled portParseOpt)

variable {rteStrsplit : Arg → ℕ → ℕ → Char → List Arg} {s s' : State} {ret : Int}

-- ============================================================= the invariant

/-- The array is within its bounds, and the pointer set if `configured`. -/
structure Parsed (configured : Prop) (s : State) : Prop where
  pointer : s.lcoreParams = true ↔ configured
  few : s.nbLcoreParams ≤ maxLcoreParams

theorem Parsed.congr {c c' : Prop} (h : Parsed c s) (hiff : c ↔ c') : Parsed c' s :=
  ⟨h.pointer.trans hiff, h.few⟩

theorem parsed_start (errno : Int) : Parsed False { State.start with errno := errno } :=
  ⟨iff_of_false Bool.false_ne_true id, Nat.zero_le _⟩

/-- A configuration that is taken sets the pointer and leaves the array within
its bounds. -/
theorem parseConfigLoop_parsed {str : Arg} (hle : s.nbLcoreParams ≤ maxLcoreParams)
    (h : parseConfigLoop rteStrsplit str s = some (s', 0)) : Parsed True s' := by
  obtain ⟨ps, t, rfl⟩ := exists_cut str
  induction ps generalizing s with
  | nil =>
      rw [parseConfigLoop_nil] at h
      split at h
      next => exact absurd (Prod.mk.inj (Option.some.inj h)).2 (by decide)
      next =>
        cases h
        exact ⟨iff_of_true rfl trivial, hle⟩
  | cons p ps ih =>
      rw [parseConfigLoop_cons] at h
      split at h
      next => exact absurd (Prod.mk.inj (Option.some.inj h)).2 (by decide)
      next hroom =>
        have hroom := Nat.not_le.mp hroom
        obtain ⟨⟨s₁, more⟩, hgroup, h⟩ := Option.bind_eq_some_iff.mp h
        obtain ⟨-, hnext⟩ := parseGroup_below hroom hgroup
        simp only at h
        split at h
        next hmore => exact ih (by rw [hnext hmore]; exact hroom) h
        next => exact absurd (Prod.mk.inj (Option.some.inj h)).2 (by decide)

/-- The options of a command line that is accepted. -/
theorem parseArgs_parsed {opts : List Opt} {optind : Int} {c : Prop} (h : Parsed c s)
    (hrun : parseArgs rteStrsplit optind opts s = some (s', ret)) (hret : 0 ≤ ret) :
    Parsed (c ∨ ∃ optarg, .config optarg ∈ opts) s' := by
  induction opts generalizing s c with
  | nil =>
      cases hrun
      exact h.congr (by simp)
  | cons opt opts ih =>
      cases opt with
      | p optarg =>
          rw [parseArgs_p, parsePortmask_state] at hrun
          refine (@ih _ c ?_ hrun).congr (by simp)
          exact ⟨h.pointer, h.few⟩
      | r optarg =>
          rw [parseArgs] at hrun
          rcases hrate : parseRate optarg s.errno with ⟨txRate, errno⟩
          rw [hrate] at hrun
          refine (@ih _ c ?_ hrun).congr (by simp)
          exact ⟨h.pointer, h.few⟩
      | o => cases hrun
      | config optarg =>
          rw [parseArgs] at hrun
          obtain ⟨⟨s₁, ret₁⟩, hconfig, hrun⟩ := Option.bind_eq_some_iff.mp hrun
          simp only at hrun
          split at hrun
          next =>
            cases hrun
            exact absurd hret (by decide)
          next hzero =>
            rw [not_not.mp hzero, parseConfig] at hconfig
            have hparsed := parseConfigLoop_parsed (Nat.zero_le _) hconfig
            refine (ih hparsed hrun).congr (iff_of_true (.inl trivial) (.inr ⟨optarg, ?_⟩))
            exact List.mem_cons_self
      | other =>
          cases hrun
          exact absurd hret (by decide)

-- ================================================================ the check

/-- Where `__check_mapping` stays inside `lcore_params_array`, after any command
line that is accepted and with at least one port enabled: exactly where there
was an option `--config` and fewer pairs of port and job than the array has
elements are given a valid mapping. -/
theorem checkMapping_stays_iff {opts : List Opt} {optind errno : Int} {eal : Eal} {g : Main}
    {ports : Port.State}
    (hrun : parseArgs rteStrsplit optind opts { State.start with errno := errno }
      = some (s, ret))
    (hret : 0 ≤ ret) (hon : ∃ port < g.nbPorts, portIsEnabled ports port) :
    StaysInside eal g ports s.params
      ↔ (∃ optarg, .config optarg ∈ opts)
        ∧ (validKeys eal g ports s.params.entries).card < maxLcoreParams := by
  have hparsed := (parseArgs_parsed (parsed_start errno) hrun hret).congr (iff_of_eq (false_or _))
  by_cases hconfig : ∃ optarg, Opt.config optarg ∈ opts
  · have hparams : s.params
        = { lcoreParams := some s.lcoreParamsArray, nbLcoreParams := s.nbLcoreParams } := by
      rw [State.params, if_pos (hparsed.pointer.mpr hconfig)]
    rw [hparams, and_iff_right hconfig]
    exact Mapping.checkMapping_inside_iff hparsed.few hon
  · have hparams : s.params = { lcoreParams := none, nbLcoreParams := s.nbLcoreParams } := by
      rw [State.params, if_neg fun h => hconfig (hparsed.pointer.mp h)]
    rw [hparams]
    exact iff_of_false (Mapping.not_staysInside_null hon _) fun h => hconfig h.1

/-- One port and one mapping. -/
theorem checkMapping_stays_iff_one :
    ∃ s, parseArgs (fun str _ n delim => tokens delim n str) 5
        [.p ['1'], .config (render [⟨0, .rx, 1⟩])] { State.start with errno := 0 } = some (s, 4)
      ∧ StaysInside Mapping.eightLcores { nbPorts := 1, statLcore := 0 }
        (portParseOpt Mapping.eightLcores 1 1) s.params := by
  obtain ⟨ps, htext, hok⟩ := exists_render_cut [⟨0, .rx, 1⟩]
  have hlen : ps.length = 1 := hok.length_eq
  have hconfig := @parseConfigLoop_accepted _
    { (parsePortmask ['1'] { State.start with errno := 0 }).1 with nbLcoreParams := 0 }
    splits_tokens ps _ hok (by decide)
    (show 0 + ps.length ≤ 128 by omega) (.done [] List.not_mem_nil) List.not_mem_nil
  have hrun : ∃ s, parseArgs (fun str _ n delim => tokens delim n str) 5
      [.p ['1'], .config (render [⟨0, .rx, 1⟩])] { State.start with errno := 0 }
        = some (s, 4) := by
    rw [parseArgs_p, parseArgs, parseConfig, htext, hconfig]
    exact ⟨_, rfl⟩
  obtain ⟨s, hrun⟩ := hrun
  refine ⟨s, hrun, (checkMapping_stays_iff hrun (by decide) ⟨0, by decide, by decide⟩).mpr
    ⟨⟨_, List.mem_cons_of_mem _ List.mem_cons_self⟩, ?_⟩⟩
  -- one port has two jobs at most
  rw [Mapping.card_validKeys]
  exact Nat.lt_of_le_of_lt (Mapping.firstValid_length _) (by decide)

/-- The command line -p 1 is accepted, and the check goes through NULL. -/
theorem checkMapping_without_config :
    ∃ s, parseArgs (fun str _ n delim => tokens delim n str) 3 [.p ['1']] State.start
        = some (s, 2)
      ∧ portIsEnabled (portParseOpt Mapping.eightLcores 1 s.portmask) 0
      ∧ checkMapping Mapping.eightLcores { nbPorts := 1, statLcore := 0 }
        (portParseOpt Mapping.eightLcores 1 s.portmask) s.params = none := by
  refine ⟨(parsePortmask ['1'] State.start).1, ?_, by decide, ?_⟩
  · rw [parseArgs_p, parseArgs]
    rfl
  · rfl

end PktSender.Options
