/-
What a command line asks for: the settings its options make, in their order,
and the program that is started with them.

A later option overrides an earlier one of its kind. `Asks` says which setting
a well-formed option makes: a port mask in hexadecimal, a rate that is in the
range of a long, a configuration with no more groups than the array has room
for. A rate is shifted by its suffix as `__parse_rate` shifts it.
-/
import PktSender.Launch.Basic
import PktSender.Options.Proofs.Config
import PktSender.Options.Proofs.Rate
import PktSender.Options.Proofs.Portmask

namespace PktSender.Launch

open CString (scan)
open Mapping (LcoreParams maxLcoreParams)
open Options (Opt Piece Tail GroupOk HexNumber cutText shiftOf)

inductive Setting where
  | portmask (v : UInt64)
  | rate (bps : ℕ)
  | mappings (l : List LcoreParams)

/-- All of them; a rate of 0 is the default one. -/
structure Settings where
  portmask : UInt64
  rate : ℕ
  mappings : List LcoreParams

/-- Without options. -/
def Settings.start : Settings := { portmask := 0, rate := 0, mappings := [] }

def Settings.set (g : Settings) : Setting → Settings
  | .portmask v => { g with portmask := v }
  | .rate bps => { g with rate := bps }
  | .mappings l => { g with mappings := l }

/-- The bits per second the transmitter is set to. -/
def Settings.rateBps (g : Settings) : ℕ :=
  if g.rate = 0 then Transmitter.txRateDefaultBps.toNat else g.rate

end PktSender.Launch
