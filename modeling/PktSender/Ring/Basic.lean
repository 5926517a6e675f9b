/-
The ring buffer of tools/ringbuffer.c: its positions, its sizes and the
operations the other components call.

# The words

All positions and lengths are C `unsigned int`, modelled as `UInt32` with
its wrap-around. The data area is a flat memory, `Nat → UInt8`; the two
`memcpy` calls of put and get are `Circular.memcpy` and `Circular.load`.
The field `is_mmap` is never read and is left out.

# Calls that may not return

`ringbuffer_put` ends in a loop that repeats a compare-and-swap of
`finish_pos` until it succeeds. With nobody else running, the first attempt
decides: either it succeeds or the call spins for ever, and the latter is
the result `none`. The interleaved semantics, where another writer may move
`finish_pos`, is `Ring/Conc.lean`.
-/
import PktSender.Lib.Bits
import PktSender.Lib.Circular

namespace PktSender.Ring

open Circular

-- ========================================================== the words

/-- `is_power_of_2`. -/
def isPowerOf2 (n : UInt32) : Bool := n != 0 && (n &&& (n - 1)) == 0

/-- `__roundup_2`: smear the bits of `num - 1` and add one. -/
def roundup2 (num : UInt32) : UInt32 :=
  let num := num - 1
  let num := num ||| (num >>> 1)
  let num := num ||| (num >>> 2)
  let num := num ||| (num >>> 4)
  let num := num ||| (num >>> 8)
  let num := num ||| (num >>> 16)
  num + 1

/-- `__min`. -/
def umin (x y : UInt32) : UInt32 := if x > y then y else x

/-- `__get_rest_size`: free bytes; equal positions mean an empty ring. -/
def getRestSize (writePos readPos size : UInt32) : UInt32 :=
  if writePos == readPos then size
  else size - ((writePos - readPos) &&& (size - 1))

/-- `__get_used_size`. -/
def getUsedSize (writePos readPos size : UInt32) : UInt32 :=
  if writePos == readPos then 0
  else (writePos - readPos) &&& (size - 1)

-- ========================================================== the ring

/-- `sizeof(struct ringbuffer)`: six 32-bit fields before the data. -/
def sizeofRingbuffer : UInt32 := 24

/-- `struct ringbuffer` with its data area. -/
structure Ringbuffer where
  /-- total size of the mapping -/
  size : UInt32
  /-- size of the data area -/
  dataSize : UInt32
  /-- position of last read -/
  readPos : UInt32
  /-- position of last write -/
  writePos : UInt32
  /-- used for lockless protection -/
  finishPos : UInt32
  /-- the data area -/
  data : Nat → UInt8

/-- What the calls to the operating system made by `ringbuffer_create`
return: `open`, `ftruncate` and `mmap`, the last two given the size they
are called with (an `int`). -/
structure CreateEnv where
  openOk : Bool
  ftruncateOk : Int → Bool
  mmapOk : Int → Bool

/-- The `int` a 32-bit word is converted to. -/
def toInt32 (x : UInt32) : Int :=
  if x.toNat < 2 ^ 31 then x.toNat else (x.toNat : Int) - 2 ^ 32

/-- The size of the data area `ringbuffer_create` decides on. -/
def createSize (size : UInt32) : UInt32 :=
  if isPowerOf2 size == false then roundup2 size else size

/-- `ringbuffer_create`: with a file it is opened and cut to size first;
without one the mapping is anonymous. -/
def ringbufferCreate (env : CreateEnv) (file : Option String)
    (size : UInt32) : Option Ringbuffer :=
  let size := createSize size
  let realSize := size + sizeofRingbuffer
  if file.isSome && !env.openOk then none
  else if file.isSome && !env.ftruncateOk (toInt32 realSize) then none
  else if !env.mmapOk (toInt32 realSize) then none
  else
    some { size := realSize, dataSize := size, readPos := 0, writePos := 0,
           finishPos := 0, data := fun _ => 0 }

/-- The size `ringbuffer_open` takes the data area of a file to have. -/
def openSize (size : UInt32) : UInt32 := roundup2 size

/-- `ringbuffer_open`: the ring in the file, and the length of the mapping it
is seen through. -/
def ringbufferOpen (env : CreateEnv) (file : Option String) (ring : Ringbuffer)
    (size : UInt32) : Option (Ringbuffer × Int) :=
  if file.isNone then none
  else
    let realSize := openSize size + sizeofRingbuffer
    if !env.openOk then none
    else if !env.mmapOk (toInt32 realSize) then none
    else some (ring, toInt32 realSize)

/-- The copy of `ringbuffer_put`: from `write_old` to the end of the data
area, the rest (if any) at its beginning. -/
def putCopy (r : Ringbuffer) (writeOld : UInt32) (buffer : Nat → UInt8)
    (len : UInt32) : Ringbuffer :=
  let off := writeOld &&& (r.dataSize - 1)
  let l := umin len (r.dataSize - off)
  let r := if l > 0 then
      { r with data := memcpy r.data off.toNat buffer l.toNat }
    else r
  if len > l then
    { r with data := memcpy r.data 0 (fun i => buffer (l.toNat + i))
                (len - l).toNat }
  else r

/-- `ringbuffer_put`: reserve `len` bytes, copy them in, publish them. The
result is the number of bytes taken, 0 when they do not fit; `none` means
that the last loop spins for ever. -/
def ringbufferPut (r : Ringbuffer) (buffer : Nat → UInt8) (len : UInt32) :
    Option (Ringbuffer × UInt32) :=
  let writeOld := r.writePos
  let l := getRestSize writeOld r.readPos r.dataSize
  if l ≤ len then some (r, 0)
  else
    let writeNew := (writeOld + len) &&& (r.dataSize - 1)
    -- the swap compares with the value just read
    let r := { r with writePos := writeNew }
    let r := putCopy r writeOld buffer len
    if r.finishPos == writeOld then
      some ({ r with finishPos := writeNew }, len)
    else none

/-- The copy of `ringbuffer_get`: `size` bytes from `read_old` to the end of
the data area and on from its beginning. -/
def getCopy (r : Ringbuffer) (readOld size : UInt32) : List UInt8 :=
  let off := readOld &&& (r.dataSize - 1)
  let l := umin size (r.dataSize - off)
  (if l > 0 then load r.data off.toNat l.toNat else [])
    ++ (if size > l then load r.data 0 (size - l).toNat else [])

/-- `ringbuffer_get`: at most `len` bytes, the number read and the bytes
written to the caller's buffer. -/
def ringbufferGet (r : Ringbuffer) (len : UInt32) :
    Ringbuffer × UInt32 × List UInt8 :=
  let writeLocal := r.finishPos
  let readOld := r.readPos
  let size := umin len (getUsedSize writeLocal readOld r.dataSize)
  if size == 0 then (r, 0, [])
  else
    ({ r with readPos := (readOld + size) &&& (r.dataSize - 1) }, size,
      getCopy r readOld size)

end PktSender.Ring
