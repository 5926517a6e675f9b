/-
The assignment of ports and jobs to lcores in src/main.c: `__check_mapping`
filters the parsed mappings in place and appends those of the measurement
lcore, `__init_lcore_port` writes them into the lcores and the ports.

# Memory

`lcore_params` is NULL until the option `--config` was parsed, then it points
to `lcore_params_array`. A read or write through NULL or past an array is
`none`, and so is what would come after it.
-/
import PktSender.Port.Basic

namespace PktSender.Mapping

open Port (Eal Job PortInfo portIsEnabled portUpdateLcore errOutOfRange)

-- =============================================================== the words

/-- `MAX_LCORE_PARAMS`. -/
def maxLcoreParams : ℕ := 128

/-- `MAX_PORT_PER_JOB`. -/
def maxPortPerJob : ℕ := 4

-- ================================================================ the data

/-- `struct lcore_params`. -/
structure LcoreParams where
  portId : UInt8
  job : Job
  lcoreId : UInt8
deriving DecidableEq, Repr

/-- The elements of `lcore_params_array`. -/
abbrev ParamsArray := ℕ → LcoreParams

/-- `lcore_params`, with what it points to, and `nb_lcore_params`. -/
structure Params where
  lcoreParams : Option ParamsArray
  nbLcoreParams : ℕ

/-- The mappings in use. -/
def Params.entries (p : Params) : List LcoreParams :=
  match p.lcoreParams with
  | none => []
  | some a => (List.range p.nbLcoreParams).map a

/-- A list of mappings as `__parse_config` leaves it. -/
def Params.parsed (l : List LcoreParams) : Params :=
  { lcoreParams := some fun i => l.getD i ⟨0, .rx, 0⟩
    nbLcoreParams := l.length }

/-- `struct lcore_conf`. A job is the first `nb_ports` elements of its
`port_list`. -/
structure LcoreConf where
  jobFlags : UInt8
  jobs : Job → List UInt8

/-- The fields of the global `pktsender` read here. -/
structure Main where
  nbPorts : UInt8
  statLcore : UInt8

/-- What `__init_lcore_port` writes. -/
structure State where
  lcoreList : UInt8 → LcoreConf
  ports : Port.State

/-- `pktsender.lcore_list` is zero at first. -/
def State.start (ports : Port.State) : State :=
  { lcoreList := fun _ => { jobFlags := 0, jobs := fun _ => [] }, ports := ports }

-- ========================================================== __check_mapping

section
variable (eal : Eal) (g : Main) (ports : Port.State)

/-- The checks of the first loop of `__check_mapping`, up to the search for a
duplicate. -/
def mappingOk (m : LcoreParams) : Bool :=
  if m.portId ≥ g.nbPorts then false
  else if !portIsEnabled ports m.portId then false
  else if !eal.rteLcoreIsEnabled m.lcoreId then false
  else m.lcoreId != g.statLcore

/-- The search for a duplicate among the elements kept so far. -/
def isDup (a : ParamsArray) (realCnt : ℕ) (m : LcoreParams) : Bool :=
  (List.range realCnt).any fun j => m.portId == (a j).portId && m.job == (a j).job

/-- Write one element of `lcore_params`. -/
def store (a : ParamsArray) (i : ℕ) (m : LcoreParams) : Option ParamsArray :=
  if i < maxLcoreParams then some (Function.update a i m) else none

/-- One round of the first loop, on the array and `real_cnt`. -/
def checkRound (st : ParamsArray × ℕ) (i : ℕ) : Option (ParamsArray × ℕ) :=
  if i ≥ maxLcoreParams then none
  else
    let (a, realCnt) := st
    let m := a i
    if !mappingOk eal g ports m then some st
    else if isDup a realCnt m then some st
    else if realCnt < i then
      (store a realCnt m).map fun a => (a, realCnt + 1)
    else some (a, realCnt + 1)

/-- The loop that adds the jobs of the measurement lcore. -/
def addMeasurement : List UInt8 → ParamsArray × ℕ → Option (ParamsArray × ℕ)
  | [], st => some st
  | i :: rest, (a, realCnt) =>
      if !portIsEnabled ports i then addMeasurement rest (a, realCnt)
      else
        (store a realCnt { portId := i, job := .tx, lcoreId := g.statLcore }).bind
          fun a =>
            if realCnt + 1 ≥ maxLcoreParams then some (a, realCnt + 1)
            else addMeasurement rest (a, realCnt + 1)

/-- The two loops of `__check_mapping` through the pointer. -/
def checkArray (a : ParamsArray) (nbLcoreParams : ℕ) : Option (ParamsArray × ℕ) :=
  ((List.range nbLcoreParams).foldlM (checkRound eal g ports) (a, 0)).bind
    (addMeasurement g ports (Port.portIds g.nbPorts))

/-- `__check_mapping`, and the assignment of its result to `nb_lcore_params`.
Without the option there is no mapping to check, and the pointer is used when
the first port is enabled. -/
def checkMapping (p : Params) : Option Params :=
  match p.lcoreParams with
  | some a =>
      (checkArray eal g ports a p.nbLcoreParams).map fun (a, realCnt) =>
        { lcoreParams := some a, nbLcoreParams := realCnt }
  | none =>
      if p.nbLcoreParams > 0 then none
      else if (Port.portIds g.nbPorts).any (portIsEnabled ports) then none
      else some { p with nbLcoreParams := 0 }

end

-- ======================================================== __init_lcore_port

/-- Write one job of one lcore. -/
def LcoreConf.setJob (conf : LcoreConf) (job : Job) (portList : List UInt8) :
    LcoreConf :=
  { conf with jobs := Function.update conf.jobs job portList }

/-- The loop of `__init_lcore_port`. -/
def initLcorePortLoop (eal : Eal) (g : Main) :
    List LcoreParams → State → Option (State × Int)
  | [], s => some (s, 0)
  | m :: rest, s =>
      if m.lcoreId ≥ eal.rteMaxLcore then none
      else
        let conf := s.lcoreList m.lcoreId
        if (conf.jobs m.job).length ≥ maxPortPerJob then some (s, errOutOfRange)
        else
          let conf := conf.setJob m.job (conf.jobs m.job ++ [m.portId])
          let s := { s with lcoreList := Function.update s.lcoreList m.lcoreId conf }
          if m.lcoreId ≠ g.statLcore then
            (portUpdateLcore s.ports m.portId m.lcoreId m.job).bind fun ports =>
              initLcorePortLoop eal g rest { s with ports := ports }
          else initLcorePortLoop eal g rest s

/-- `__init_lcore_port`. -/
def initLcorePort (eal : Eal) (g : Main) (p : Params) (s : State) :
    Option (State × Int) :=
  initLcorePortLoop eal g p.entries s

end PktSender.Mapping
