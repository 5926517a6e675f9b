import PktSender.Lib.Lts
import PktSender.Lib.LastWrite
import PktSender.Lib.CString
import PktSender.Lib.Tsv
import PktSender.Lib.Circular
import PktSender.Lib.Bits
import PktSender.Lib.LittleEndian
import PktSender.Lib.BigEndian
import PktSender.Lib.Memory
import PktSender.Lib.Crc
import PktSender.Lib.OnesComplement
import PktSender.Lib.Spacing
import PktSender.Lib.FirstOf
import PktSender.Lib.Ledger
import PktSender.Lib.Blocks
import PktSender.Lib.RoundRobin
import PktSender.Lib.Places
import PktSender.Ring.Basic
import PktSender.Ring.Proofs.Words
import PktSender.Ring.Proofs.Fifo
import PktSender.Ring.Proofs.Items
import PktSender.Ring.Conc
import PktSender.Ring.Proofs.ConcInv
import PktSender.Ring.Proofs.ConcStep
import PktSender.Ring.Proofs.ConcSafety
import PktSender.Hash.Tables
import PktSender.Hash.Basic
import PktSender.Hash.Proofs.Crc
import PktSender.Hash.Proofs.Register
import PktSender.Hash.Proofs.Spread
import PktSender.Cuckoo.Basic
import PktSender.Cuckoo.Proofs.Evict
import PktSender.Cuckoo.Proofs.Inv
import PktSender.Cuckoo.Proofs.Entries
import PktSender.Cuckoo.Proofs.Ops
import PktSender.Cuckoo.Proofs.Map
import PktSender.Cuckoo.Proofs.Race
import PktSender.Cuckoo.Proofs.Iterate
import PktSender.Cuckoo.Proofs.Room
import PktSender.Cuckoo.Proofs.Home
import PktSender.Cuckoo.Proofs.Position
import PktSender.Cuckoo.Proofs.Traverse
import PktSender.Cuckoo.Proofs.Size
import PktSender.Cuckoo.Proofs.Walk
import PktSender.Cuckoo.Proofs.Refusal
import PktSender.Dump.Basic
import PktSender.Dump.Proofs.Available
import PktSender.Dump.Proofs.Aggregate
import PktSender.Dump.Proofs.Rows
import PktSender.Dump.Proofs.Gap
import PktSender.Dump.Proofs.Leak
import PktSender.Dump.Proofs.Capacity
import PktSender.Dump.Command
import PktSender.Dump.Proofs.Bounds
import PktSender.Dump.Proofs.Times
import PktSender.Dump.Text
import PktSender.Dump.Proofs.Text
import PktSender.Dump.File
import PktSender.Dump.Proofs.File
import PktSender.Probe.Basic
import PktSender.Probe.Proofs.Numbering
import PktSender.Pkt.Basic
import PktSender.Pkt.Proofs.Frame
import PktSender.Pkt.Proofs.Address
import PktSender.Pkt.Proofs.Checksum
import PktSender.Transmitter.Basic
import PktSender.Transmitter.Proofs.Rate
import PktSender.Transmitter.Proofs.Burst
import PktSender.Port.Basic
import PktSender.Port.Proofs.Setup
import PktSender.Port.Proofs.Pools
import PktSender.Port.Proofs.Started
import PktSender.Port.Proofs.Control
import PktSender.Mapping.Basic
import PktSender.Mapping.Proofs.Check
import PktSender.Mapping.Proofs.Exclusive
import PktSender.Mapping.Proofs.Filter
import PktSender.Mapping.Proofs.Limit
import PktSender.Options.Basic
import PktSender.Options.Proofs.Fields
import PktSender.Options.Proofs.Config
import PktSender.Options.Proofs.Stray
import PktSender.Options.Proofs.Rate
import PktSender.Options.Proofs.Portmask
import PktSender.Options.Proofs.Errno
import PktSender.Options.Proofs.Bounds
import PktSender.Launch.Basic
import PktSender.Launch.Proofs.Queues
import PktSender.Signal.Basic
import PktSender.Signal.Proofs.Stop
import PktSender.Launch.Proofs.Rate
import PktSender.Launch.Proofs.Rounds
import PktSender.Rx.Basic
import PktSender.Rx.Proofs.Ownership
import PktSender.Stat.Basic
import PktSender.Stat.Proofs.Figures
import PktSender.Launch.CommandLine
import PktSender.Launch.Proofs.CommandLine
import PktSender.Launch.Process
import PktSender.Launch.Proofs.Process
import PktSender.Lifecycle.Basic
import PktSender.Lifecycle.Proofs.Ledger
import PktSender.Tracer.Basic
import PktSender.Tracer.Proofs.Cache
import PktSender.Tracer.Proofs.Writen
import PktSender.Tracer.Proofs.HwTx
import PktSender.Tracer.Proofs.Prepare
import PktSender.Tracer.Api
import PktSender.Tracer.Proofs.Api
import PktSender.Tracer.Proofs.Pipeline
import PktSender.Tracer.Proofs.Latency
import PktSender.Latch.Basic
import PktSender.Latch.Proofs.Numbering
import PktSender.Latch.Proofs.Attribution
import PktSender.Mbuf.Basic
import PktSender.Mbuf.Proofs.Ownership
import PktSender.Mbuf.Proofs.Moves
import PktSender.Mbuf.Proofs.Spent
import PktSender.Mbuf.Bulk
import PktSender.Mbuf.Proofs.Bulk
import PktSender.Template.Basic
import PktSender.Template.Proofs.Setup
import PktSender.Template.Proofs.Frames
