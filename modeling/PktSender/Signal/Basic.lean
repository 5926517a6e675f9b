/-
CTRL-C: the signal handler of src/pktsender.c against `main` of src/main.c.

# Steps

`main` is cut after each of its calls from the point where it installs the
handler. A SIGINT may come between any two of them, as often as it likes, and
the handler runs to its end: no other call of it comes in between, on this
thread or another. The threads read `job_state` and do not write
it, so they are not part of the state; whether a call succeeds and when
`main` is done waiting is up to the run.

# Ghost state

`handled` counts the calls of the handler without bound. Nothing reads it.
-/
import PktSender.Lib.Lts

namespace PktSender.Signal

-- =============================================================== the words

/-- `SIGINT`. -/
def sigint : Int := 2

/-- `LCORE_JOB_TX`. -/
def lcoreJobTx : UInt8 := 1

/-- `JOB_FLAGS_ALL`. -/
def jobFlagsAll : UInt8 := 0x3

-- ================================================================ the state

/-- The next call of `main`. -/
inductive Pc where
  | timerSubsystemInit
  | initLcorePort
  | portInit
  | statInit
  | probeInit
  | portStart
  | statStart
  | probeStart
  /-- the store to `job_state` -/
  | setJobState
  | launch
  | waitLcore
  /-- `port_close` -/
  | closing
  | probeStop
  /-- from `stat_stop`, which asks the closed ports for their counters, to the
  return -/
  | statStop
  /-- after the label `fail_free_all` -/
  | failFreeAll
  | exited (ret : Int)
deriving DecidableEq

structure State where
  jobState : UInt8
  sigRecved : UInt8
  main : Pc
  handled : ℕ
deriving DecidableEq

/-- When the handler is installed. -/
def start : State :=
  { jobState := 0, sigRecved := 0, main := .timerSubsystemInit, handled := 0 }

-- ================================================================ the steps

/-- `pktsender_sig_handler`. -/
def pktsenderSigHandler (s : State) (signo : Int) : State :=
  if signo = sigint then
    let jobState :=
      if s.sigRecved = 0 then s.jobState &&& ~~~(1 <<< lcoreJobTx)
      else if s.sigRecved = 1 then 0
      else s.jobState
    { s with
      jobState := jobState
      sigRecved := s.sigRecved + 1
      handled := s.handled + 1 }
  else s

/-- The next call of `main`, which succeeds or not. -/
def mainStep (s : State) (ok : Bool) : Option State :=
  match s.main with
  | .timerSubsystemInit => some { s with main := .initLcorePort }
  | .initLcorePort => some { s with main := if ok then .portInit else .failFreeAll }
  | .portInit => some { s with main := if ok then .statInit else .failFreeAll }
  | .statInit => some { s with main := if ok then .probeInit else .failFreeAll }
  | .probeInit => some { s with main := if ok then .portStart else .failFreeAll }
  | .portStart => some { s with main := if ok then .statStart else .failFreeAll }
  | .statStart => some { s with main := .probeStart }
  | .probeStart => some { s with main := .setJobState }
  | .setJobState => some { s with main := .launch, jobState := jobFlagsAll }
  | .launch => some { s with main := .waitLcore }
  | .waitLcore => some { s with main := if ok then .closing else .exited (-1) }
  | .closing => some { s with main := .probeStop }
  | .probeStop => some { s with main := .statStop }
  | .statStop => some { s with main := .exited 0 }
  | .failFreeAll => some { s with main := .exited (-1) }
  | .exited _ => none

/-- What the outside decides. -/
inductive Act where
  /-- CTRL-C -/
  | sigint
  /-- `main` goes on; whether the call it makes succeeds -/
  | main (ok : Bool)
deriving DecidableEq

def Pc.isExited : Pc → Bool
  | .exited _ => true
  | _ => false

/-- One step: no signal is handled once the process is gone. -/
def step (s : State) : Act → Option State
  | .sigint => if s.main.isExited then none else some (pktsenderSigHandler s Signal.sigint)
  | .main ok => mainStep s ok

end PktSender.Signal
