/-
The process: the threads of a started program under its signal handler.

# One word

`main`, the handler and the threads have `job_state` in common. A thread finds
in it what the others left when it looks. A call of the handler is one step: two
calls do not overlap, and no thread looks in the middle of one.

# Who waits for whom

`rte_eal_mp_remote_launch` runs `__launch_measure_lcore` on the thread of `main`
itself (`CALL_MASTER`): the timer callback only runs inside that call, which
comes back when the loop found no job running. After it `main` waits for the
other lcores, each of which returns 0, and closes the ports. What is left to it
then is `probe_stop`, `stat_stop` and to give back what it has.

# Left out

What an lcore does with the packets it received (`probe_receive`) returns.
-/
import PktSender.Launch.Basic
import PktSender.Signal.Basic

namespace PktSender.Launch

structure Process where
  signal : Signal.State
  sys : Sys

/-- After the store of `main` to `job_state`, with so many signals handled
before it, during start-up. -/
def launched (early : ℕ) (s : Sys) : Process :=
  { signal :=
      { jobState := Signal.jobFlagsAll, sigRecved := UInt8.ofNat early, main := .launch
        handled := early }
    sys := s }

/-- What the outside decides. -/
inductive Event where
  /-- CTRL-C -/
  | sigint
  /-- `main` goes on -/
  | main
  /-- a thread takes a step -/
  | thread (act : Act)

/-- What a thread finds in `job_state`, if it looks, is there. -/
def Act.reads (jobState : UInt8) : Act → Bool
  | .lcore _ seen _ => seen == jobState
  | .probe (.fire seen) => seen == jobState
  | .probe _ => true

/-- The callback runs inside `rte_eal_mp_remote_launch`; the other threads, and the
driver, run at any time. -/
def Process.runs (p : Process) : Act → Bool
  | .lcore _ _ _ => true
  | .probe (.complete _) => true
  | .probe _ => p.signal.main == .launch

/-- The lcores of `RTE_LCORE_FOREACH_SLAVE`. -/
def slaves (c : Cfg) : List UInt8 :=
  (Port.portIds c.eal.rteMaxLcore).filter fun lcoreid =>
    c.eal.rteLcoreIsEnabled lcoreid && lcoreid != c.statLcore

/-- Whether the call `main` is in comes back. -/
def Process.returns (c : Cfg) (p : Process) : Bool :=
  match p.signal.main with
  | .launch =>
      p.signal.jobState &&& Signal.jobFlagsAll == 0 && decide (p.sys.probe.pc = .idle)
  | .waitLcore => (slaves c).all fun lcoreid => p.sys.pc lcoreid = .done
  | _ => true

/-- One step of the process. -/
def Process.step (c : Cfg) (p : Process) : Event → Option Process
  | .sigint => (Signal.step p.signal .sigint).map fun signal => { p with signal := signal }
  | .main =>
      if p.returns c then
        (Signal.step p.signal (.main true)).map fun signal => { p with signal := signal }
      else none
  | .thread act =>
      if act.reads p.signal.jobState && p.runs act then
        (Launch.step c p.sys act).map fun sys => { p with sys := sys }
      else none

end PktSender.Launch
