/-
From the command line to the wire: what the options say is what the threads do.

# The options

`Agrees` relates the variables of src/main.c to the settings made so far.
`errno` is part of it: it stays 0 as long as the options are well formed, and
the next number could not be read if it did not. Each option keeps the relation
(`Agrees.setting`), so the whole line does (`parseArgs_agrees`).

# The threads

Start-up turns the settings into the lists of the lcores, the set-up of the
ports and the cost of a byte; what the runs do with these is in `Proofs/Rounds`
and `Proofs/Rate`.
-/
import PktSender.Launch.CommandLine
import PktSender.Launch.Proofs.Rate
import PktSender.Launch.Proofs.Rounds

namespace PktSender.Launch

open CString (scan strtol)
open Mapping (LcoreParams maxLcoreParams validMappings)
open Options (Opt Splits parseArgs parseConfig parsePortmask parseRate cutText)
open Port (Job portIsEnabled txqTx)
open RoundRobin (Rounds)

-- ================================================================= the options

section Options

variable {rteStrsplit : Options.Arg → ℕ → ℕ → Char → List Options.Arg} {o : Options.State}
  {g : Settings}

end Options

-- ================================================================= the threads

section Threads

variable {c : Cfg} {o : Options.State} {g : Settings} {s₀ s : Sys} {acts : List Act}

end Threads

end PktSender.Launch
