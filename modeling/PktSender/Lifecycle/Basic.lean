/-
The life of the program: `main` of src/main.c from its first allocation to its
return, with what it takes and gives back.

# The ledger

`Heap` numbers what is taken outside of port.c: the arrays `port_list`,
`port_stat` and `probe_list`, and the mempool of the probes. The mempools of
the ports are in the ledger of `Port.Device`. `zfree` and the code of
`probe_free` check for NULL and clear the pointer.

# In the middle

Between the launch and `port_close` the process runs (`Process.step`), and
`main` is one of its parts; a list of events is its run up to there. Of start-up
only the number of signals handled in it is left to the process.

# Left out

`-o` gives `strdup` a NULL pointer, since its option takes no argument; so in
what is modelled `prefix` is NULL, and not freed. The numbers in `port_stat`.
-/
import PktSender.Launch.Process

namespace PktSender.Lifecycle

open Port (Device portIds portIsEnabled portInit portStart)
open Mapping (checkMapping initLcorePort)
open Probe (ProbeState)
open Launch (Sys Event Process launch launched)

/-- What start-up depends on: also the allocations of `port_parse_opt` and
`stat_init`. -/
structure Cfg extends Launch.Cfg where
  portMallocOk : Bool
  statMallocOk : Bool

-- =============================================================== the ledger

structure Heap where
  created : ℕ
  freed : List ℕ

def Heap.start : Heap := { created := 0, freed := [] }

/-- One more is made; its number is `created`. -/
def Heap.malloc (heap : Heap) : Heap := { heap with created := heap.created + 1 }

/-- `zfree`. -/
def Heap.zfree (heap : Heap) (ptr : Option ℕ) : Heap :=
  { heap with freed := ptr.toList ++ heap.freed }

/-- The file-level variables of port.c, stat.c and probe.c that point to
something. -/
structure State where
  ports : Port.State
  heap : Heap
  portList : Option ℕ
  portStat : Option ℕ
  probeList : Option ℕ
  probeMp : Option ℕ

def State.start : State :=
  { ports := { portNbMax := 0, portList := fun _ => .zero, dev := .start }
    heap := .start, portList := none, portStat := none, probeList := none, probeMp := none }

-- ================================================================= start-up

/-- `port_parse_opt`; there are at most 255 ports to count. -/
def portParseOpt (c : Cfg) (s : State) : State × ℕ :=
  if !c.portMallocOk then
    ({ s with
       ports := { s.ports with portNbMax := c.rteEthDevCount }
       portList := none }, 0)
  else
    let s := { s with heap := s.heap.malloc, portList := some s.heap.created }
    let s := { s with ports := c.ports }
    let enabledPorts := (portIds c.rteEthDevCount).countP (portIsEnabled s.ports)
    if enabledPorts > 0 then (s, enabledPorts)
    else ({ s with heap := s.heap.zfree s.portList, portList := none }, 0)

/-- `stat_init`, what it allocates. -/
def statInit (c : Cfg) (s : State) (nbPortEnabled : ℕ) : State × Bool :=
  if nbPortEnabled < 1 || c.rteEthDevCount < 1 then (s, false)
  else if !c.statMallocOk then ({ s with portStat := none }, false)
  else ({ s with heap := s.heap.malloc, portStat := some s.heap.created }, true)

/-- `stat_free`. -/
def statFree (s : State) : State :=
  { s with heap := s.heap.zfree s.portStat, portStat := none }

/-- `probe_free`. -/
def probeFree (s : State) : State :=
  let s := { s with heap := s.heap.zfree s.probeList, probeList := none }
  { s with heap := s.heap.zfree s.probeMp, probeMp := none }

/-- `probe_init`, what it allocates besides what it writes and returns. -/
def probeInit (c : Cfg) (s : State) : State × Except Int ProbeState :=
  let r := Probe.probeInit (c.probe s.ports) c.mallocOk c.poolCreateOk c.mem
  if !c.mallocOk then ({ s with probeList := none }, r)
  else
    let s := { s with heap := s.heap.malloc, probeList := some s.heap.created }
    if !c.poolCreateOk then (probeFree { s with probeMp := none }, r)
    else ({ s with heap := s.heap.malloc, probeMp := some s.heap.created }, r)

/-- `main` from the check of the mappings to `port_start`. The threads, or no
threads where it goes to `fail_free_all`. -/
def prepare (c : Cfg) (s : State) (nbPortEnabled : ℕ) : Option (State × Option Sys) :=
  (checkMapping c.eal c.main s.ports c.params).bind fun params =>
    if params.nbLcoreParams = 0 then some (s, none)
    else
      (initLcorePort c.eal c.main params (.start s.ports)).bind fun (mapped, ret) =>
        let s := { s with ports := mapped.ports }
        if ret < 0 then some (s, none)
        else
          let (ports, ret) := portInit c.eal c.dpdk c.global s.ports
          let s := { s with ports := ports }
          if ret < 0 then some (s, none)
          else
            let (s, ok) := statInit c s nbPortEnabled
            if !ok then some (s, none)
            else
              match probeInit c s with
              | (s, .error _) => some (s, none)
              | (s, .ok probe) =>
                  let (ports, ret) := portStart c.dpdk s.ports
                  let s := { s with ports := ports }
                  if ret < 0 then some (s, none)
                  else
                    some (s, some
                      { lcoreList := mapped.lcoreList
                        ports := s.ports
                        probe := probe
                        pc := launch c.toCfg mapped.lcoreList
                        bursts := [] })

-- ================================================================== the end

/-- `port_close`. -/
def portClose (s : State) : State :=
  let dev := ((portIds s.ports.portNbMax).filter (portIsEnabled s.ports)).foldl Device.close
    s.ports.dev
  { s with ports := { s.ports with dev := dev } }

/-- `port_free`. -/
def portFree (s : State) : State :=
  match s.portList with
  | none => s
  | some _ =>
      { s with
        ports := Port.portFree s.ports
        heap := s.heap.zfree s.portList
        portList := none }

/-- `__pktsender_free`. -/
def pktsenderFree (s : State) : State := probeFree (statFree (portFree s))

/-- `main` from `port_parse_opt` to its return, with `early` signals handled during
start-up. -/
def main (c : Cfg) (early : ℕ) (events : List Event) : Option (State × Int) :=
  let (s, nbPortEnabled) := portParseOpt c .start
  if nbPortEnabled < 1 then some (s, -1)
  else
    (prepare c s nbPortEnabled).bind fun (s, sys) =>
      match sys with
      | none => some (pktsenderFree s, -1)
      | some sys =>
          (Lts.run (Process.step c.toCfg) (launched early sys) events).bind fun p =>
            if p.signal.main = .closing then
              some (pktsenderFree (portClose { s with ports := p.sys.ports }), 0)
            else none

end PktSender.Lifecycle
