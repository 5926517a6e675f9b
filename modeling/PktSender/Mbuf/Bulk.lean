/-
`__pktmbuf_alloc_bulk` of src/transmitter.c as it is written: a loop unrolled
four times, which a `switch` enters in the middle.

# The control

`BulkPc` is a place in the code and `bulkStep` goes from one to the next. The
loop goes on until `idx` is `count`, so nothing in its form says that it ends:
a run gets `fuel` steps and is `none` when it has not returned by then. It is
`none`, too, when `RTE_VERIFY` stops the program.

# Parameter

`rte_mempool_get_bulk` returns an error, or fills the table `mbufs`.

# Ghost state

`touched` is the indices of the table that were used, in order. Nothing reads
it.
-/
import PktSender.Mbuf.Basic

namespace PktSender.Mbuf.Bulk

-- ================================================================ the data

/-- The fields of `struct rte_mbuf` that are used here. -/
structure RteMbuf where
  refcnt : UInt16
  next : Option MbufId
  nbSegs : UInt8
  port : UInt8
  dataOff : UInt16
  bufLen : UInt16
deriving DecidableEq

/-- The mbufs by their addresses. -/
abbrev Mem := MbufId → RteMbuf

/-- The locals of the function, and the mbufs. -/
structure BulkState where
  idx : UInt32
  mem : Mem
  touched : List UInt32

/-- Before the `switch`. -/
def BulkState.start (mem : Mem) : BulkState :=
  { idx := 0, mem := mem, touched := [] }

-- ================================================================= one mbuf

/-- `RTE_PKTMBUF_HEADROOM`. -/
def rtePktmbufHeadroom : UInt16 := 128

/-- `__pktmbuf_reset`. -/
def pktmbufReset (m : RteMbuf) : RteMbuf :=
  { m with
    next := none
    nbSegs := 1
    port := 0xff
    dataOff := if rtePktmbufHeadroom ≤ m.bufLen then rtePktmbufHeadroom else m.bufLen }

/-- The statements of one label: check the count, set it, reset the fields. -/
def initMbuf (mbufs : UInt32 → MbufId) (s : BulkState) : Option BulkState :=
  let m := mbufs s.idx
  if (s.mem m).refcnt ≠ 0 then none
  else
    let mem := Function.update s.mem m { s.mem m with refcnt := 1 }
    let mem := Function.update mem m (pktmbufReset (mem m))
    some { idx := s.idx + 1, mem := mem, touched := s.touched ++ [s.idx] }

-- ================================================================= the loop

/-- Where the code is: at the condition of the loop, where the label of case 0
is, at the start of its body, at another label, or at the end. -/
inductive BulkPc where
  | case0
  | body
  | case3
  | case2
  | case1
  | ret
deriving DecidableEq

/-- `switch (count % 4)`. -/
def switchLabel (count : UInt32) : BulkPc :=
  match (count % 4).toNat with
  | 0 => .case0
  | 3 => .case3
  | 2 => .case2
  | 1 => .case1
  | _ => .ret

/-- From one place to the next. -/
def bulkStep (count : UInt32) (mbufs : UInt32 → MbufId) (s : BulkState) :
    BulkPc → Option (BulkPc × BulkState)
  | .case0 => some (if s.idx ≠ count then .body else .ret, s)
  | .body => (initMbuf mbufs s).map (.case3, ·)
  | .case3 => (initMbuf mbufs s).map (.case2, ·)
  | .case2 => (initMbuf mbufs s).map (.case1, ·)
  | .case1 => (initMbuf mbufs s).map (.case0, ·)
  | .ret => some (.ret, s)

/-- From a place to the end. -/
def bulkRun (count : UInt32) (mbufs : UInt32 → MbufId) :
    ℕ → BulkPc → BulkState → Option BulkState
  | _, .ret, s => some s
  | 0, _, _ => none
  | fuel + 1, pc, s =>
      (bulkStep count mbufs s pc).bind fun r => bulkRun count mbufs fuel r.1 r.2

/-- `__pktmbuf_alloc_bulk`. -/
def pktmbufAllocBulk (got : Except Int (UInt32 → MbufId)) (count : UInt32) (fuel : ℕ)
    (mem : Mem) : Option (BulkState × Int) :=
  match got with
  | .error rc => some (.start mem, rc)
  | .ok mbufs =>
      (bulkRun count mbufs fuel (switchLabel count) (.start mem)).map fun s => (s, 0)

end PktSender.Mbuf.Bulk
