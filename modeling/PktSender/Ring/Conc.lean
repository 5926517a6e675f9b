/-
The interleaved semantics of `ringbuffer_put` and `ringbuffer_get`: any
number of writers and one reader on one ring, one shared-memory access at a
time.

# Steps

A writer inside put is at one of the points of `WriterPc`, a reader inside
get at one of the points of `ReaderPc`; each action of `ConcAct` is one
access to a shared variable (or one run of copied bytes) together with the
local computation after it. The `while (1)` loops of put are the two
compare-and-swap actions: a failed swap of `write_pos` goes back to the
load, a failed swap of `finish_pos` stays where it is and may be tried
again.

The copies move any number `c` of bytes at a time, from one byte to the
whole message, so that both a byte-by-byte copy and a copy in a single step
are among the interleavings.

# Ghost state

`accepted`, `committed` and `obtained` record, in order, the messages whose
`write_pos` swap succeeded, those whose `finish_pos` swap succeeded, and
the bytes returned by finished gets. No step reads them.
-/
import PktSender.Ring.Proofs.Fifo

namespace PktSender.Ring

open Circular

-- ================================================================ states

/-- What a writer passes to put: a pointer and a length. -/
structure Msg where
  buffer : Nat → UInt8
  len : UInt32

/-- The bytes of a message. -/
def Msg.bytes (m : Msg) : List UInt8 := bytesOf m.buffer m.len

/-- Where a writer is. -/
inductive WriterPc where
  /-- between two calls -/
  | idle
  /-- at the head of the first loop, about to load `write_pos` -/
  | start (m : Msg)
  /-- `write_old` is loaded, `read_pos` is not -/
  | loaded (m : Msg) (writeOld : UInt32)
  /-- the message fitted, about to swap `write_pos` -/
  | tested (m : Msg) (writeOld : UInt32)
  /-- the swap succeeded and `done` bytes are copied; when all are, about to
  swap `finish_pos` -/
  | copying (m : Msg) (writeOld writeNew : UInt32) (done : Nat)

/-- Where the reader is. -/
inductive ReaderPc where
  /-- between two calls -/
  | idle
  /-- `finish_pos` is loaded into `write_local`, `read_pos` is not -/
  | loaded (len writeLocal : UInt32)
  /-- `buf` is copied out of `size` bytes; when all are, about to store
  `read_pos` -/
  | copying (readOld size : UInt32) (buf : List UInt8)

/-- The ring, the parties and the ghost record. -/
structure ConcState (ι : Type) where
  ring : Ringbuffer
  writer : ι → WriterPc
  reader : ReaderPc
  accepted : List Msg
  committed : List Msg
  obtained : List UInt8

/-- One access to a shared variable, or one run of copied bytes. -/
inductive ConcAct (ι : Type) where
  | put (w : ι) (m : Msg)
  | loadWrite (w : ι)
  | loadRead (w : ι)
  | swapWrite (w : ι)
  | copy (w : ι) (c : Nat)
  | swapFinish (w : ι)
  | get (len : UInt32)
  | loadReadPos
  | fetch (c : Nat)
  | storeRead

/-- The address both copies use for byte `i` of `len` bytes at position
`pos`: up to the end of the data area, then from its beginning. -/
def wrapAddr (r : Ringbuffer) (pos len : UInt32) (i : Nat) : Nat :=
  let off := pos &&& (r.dataSize - 1)
  let l := umin len (r.dataSize - off)
  if i < l.toNat then off.toNat + i else i - l.toNat

-- ================================================================= steps

section Steps

variable {ι : Type} [DecidableEq ι]

/-- Move one writer. -/
def ConcState.setWriter (s : ConcState ι) (w : ι) (pc : WriterPc) :
    ConcState ι :=
  { s with writer := Function.update s.writer w pc }

/-- One step of writer `w` inside put. -/
def writerStep (s : ConcState ι) (w : ι) (a : ConcAct ι) :
    Option (ConcState ι) :=
  match a, s.writer w with
  | .put _ m, .idle => some (s.setWriter w (.start m))
  | .loadWrite _, .start m =>
      some (s.setWriter w (.loaded m s.ring.writePos))
  | .loadRead _, .loaded m writeOld =>
      let l := getRestSize writeOld s.ring.readPos s.ring.dataSize
      if l ≤ m.len then
        -- ring is full, drop item
        some (s.setWriter w .idle)
      else some (s.setWriter w (.tested m writeOld))
  | .swapWrite _, .tested m writeOld =>
      let writeNew := (writeOld + m.len) &&& (s.ring.dataSize - 1)
      if s.ring.writePos == writeOld then
        some
          { s with
            ring := { s.ring with writePos := writeNew }
            writer := Function.update s.writer w
              (.copying m writeOld writeNew 0)
            accepted := s.accepted ++ [m] }
      else some (s.setWriter w (.start m))
  | .copy _ c, .copying m writeOld writeNew done =>
      if done + c ≤ m.len.toNat then
        some
          { s with
            ring := { s.ring with
              data := copyLoop s.ring.data (wrapAddr s.ring writeOld m.len)
                m.buffer done c }
            writer := Function.update s.writer w
              (.copying m writeOld writeNew (done + c)) }
      else none
  | .swapFinish _, .copying m writeOld writeNew done =>
      if done = m.len.toNat then
        if s.ring.finishPos == writeOld then
          some
            { s with
              ring := { s.ring with finishPos := writeNew }
              writer := Function.update s.writer w .idle
              committed := s.committed ++ [m] }
        else some s
      else none
  | _, _ => none

/-- One step of the reader inside get. -/
def readerStep (s : ConcState ι) (a : ConcAct ι) : Option (ConcState ι) :=
  match a, s.reader with
  | .get len, .idle =>
      some { s with reader := .loaded len s.ring.finishPos }
  | .loadReadPos, .loaded len writeLocal =>
      let readOld := s.ring.readPos
      let size := umin len (getUsedSize writeLocal readOld s.ring.dataSize)
      if size == 0 then some { s with reader := .idle }
      else some { s with reader := .copying readOld size [] }
  | .fetch c, .copying readOld size buf =>
      if buf.length + c ≤ size.toNat then
        some
          { s with
            reader := .copying readOld size
              (buf ++ (List.range' buf.length c).map fun i =>
                s.ring.data (wrapAddr s.ring readOld size i)) }
      else none
  | .storeRead, .copying readOld size buf =>
      if buf.length = size.toNat then
        some
          { s with
            ring := { s.ring with
              readPos := (readOld + size) &&& (s.ring.dataSize - 1) }
            reader := .idle
            obtained := s.obtained ++ buf }
      else none
  | _, _ => none

/-- One step of the system; `none` when the party is not at that point. -/
def concStep (s : ConcState ι) (a : ConcAct ι) : Option (ConcState ι) :=
  match a with
  | .put w _ => writerStep s w a
  | .loadWrite w => writerStep s w a
  | .loadRead w => writerStep s w a
  | .swapWrite w => writerStep s w a
  | .copy w _ => writerStep s w a
  | .swapFinish w => writerStep s w a
  | _ => readerStep s a

/-- All parties idle on a ring that nobody has used yet. -/
def concInit (r : Ringbuffer) : ConcState ι :=
  { ring := r, writer := fun _ => .idle, reader := .idle
    accepted := [], committed := [], obtained := [] }

end Steps

-- ============================================================ properties

section Properties

variable {ι : Type}

/-- The bytes of all messages whose `write_pos` swap succeeded, in the order
of the swaps. -/
def ConcState.stream (s : ConcState ι) : List UInt8 :=
  s.accepted.flatMap Msg.bytes

/-- The bytes of all messages whose `finish_pos` swap succeeded. -/
def ConcState.published (s : ConcState ι) : List UInt8 :=
  s.committed.flatMap Msg.bytes

/-- The bytes a get in progress has copied out so far. -/
def ReaderPc.buffer : ReaderPc → List UInt8
  | .copying _ _ buf => buf
  | _ => []

/-- The cells a writer has reserved and not yet published. -/
def ConcState.reservedCells (s : ConcState ι) (w : ι) : List Nat :=
  match s.writer w with
  | .copying m writeOld _ _ =>
      (List.range m.len.toNat).map (wrapAddr s.ring writeOld m.len)
  | _ => []

/-- The cells of the bytes that are published and that no store to
`read_pos` has released. -/
def ConcState.unreadCells (s : ConcState ι) : List Nat :=
  (List.range (s.published.length - s.obtained.length)).map fun i =>
    (s.ring.readPos.toNat + i) % s.ring.dataSize.toNat

/-- The cells a copy action is about to write. -/
def ConcState.targets (s : ConcState ι) : ConcAct ι → List Nat
  | .copy w c =>
      match s.writer w with
      | .copying m writeOld _ done =>
          (List.range' done c).map (wrapAddr s.ring writeOld m.len)
      | _ => []
  | _ => []

/-- No reserved range overlaps another one or the unread bytes. -/
def ConcState.NoOverlap (s : ConcState ι) : Prop :=
  (∀ w w', w ≠ w' →
    (s.reservedCells w).Disjoint (s.reservedCells w'))
    ∧ ∀ w, (s.reservedCells w).Disjoint s.unreadCells

/-- The condition on a successful swap of `write_pos`: the free-space test
the writer made earlier would still pass at the moment of the swap. -/
def FreshSwap (s : ConcState ι) : ConcAct ι → Prop
  | .swapWrite w =>
      match s.writer w with
      | .tested m writeOld =>
          s.ring.writePos = writeOld →
          m.len < getRestSize s.ring.writePos s.ring.readPos s.ring.dataSize
      | _ => True
  | _ => True

instance (s : ConcState ι) (a : ConcAct ι) : Decidable (FreshSwap s a) := by
  unfold FreshSwap
  split
  · split <;> infer_instance
  · infer_instance

end Properties

end PktSender.Ring
