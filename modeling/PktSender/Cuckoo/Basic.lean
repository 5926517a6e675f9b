/-
The cuckoo hash table of tools/cuckoohash.c.

# The table

Every key has a primary hash and a secondary one derived from it, and with
them a primary and a secondary bucket of four entries. An entry holds the
pair (`current`, `alt`) of hashes, `current` being the one of the bucket it
lies in, and the number of the slot of `key_store` that holds the key and
its datum. The slot numbers not in use wait in a ring buffer, `free_slots`,
as four-byte integers. Slot 0 is never used.

The buckets are a function of the bucket index and the key store is a
function of the byte offset `slot * key_entry_size`, both computed in 32
bits as the source does. The fifth `key_idx` of a bucket is read by nothing
and is left out, and so are the `NULL` arguments: a table and a key are
always there.

# Eviction

When the primary bucket of a new key is full, `make_space_bucket` pushes one
of its entries to the entry's other bucket, after making space there by the
same means if it has to. An entry under way is flagged, and only unflagged
entries are taken, so the recursion ends; the model counts the calls with
`fuel` (`Proofs/Evict.lean` shows that one more than the number of clear
flags is enough).

# Ghost state

`ringLog` records what each call on `free_slots` returned. Nothing reads it.
-/
import PktSender.Hash.Basic
import PktSender.Ring.Basic

namespace PktSender.Cuckoo

open LittleEndian PktSender.Hash PktSender.Ring

-- ================================================================ the words

def EINVAL : Int := 22
def ENOENT : Int := 2
def ENOMEM : Int := 12
def ENOSPC : Int := 28

def cuckooHashInitVal : UInt32 := 7

/-- `HASH_ENTRIES_MIN`. -/
def hashEntriesMin : UInt32 := 8

/-- The entries of a bucket, in the order every loop takes them. -/
def bucketEntries : List (Fin 4) := [0, 1, 2, 3]

/-- `struct cuckoohash_signatures`. -/
structure Signatures where
  current : UInt32
  alt : UInt32
deriving DecidableEq

/-- The 64-bit view of the union. -/
def Signatures.sig (s : Signatures) : UInt64 :=
  s.current.toUInt64 ||| (s.alt.toUInt64 <<< 32)

/-- `NULL_SIGNATURE`. -/
def nullSignature : UInt64 := 0

/-- `struct cuckoohash_bucket`. -/
structure Bucket where
  signatures : Fin 4 → Signatures
  keyIdx : Fin 4 → UInt32
  flag : Fin 4 → UInt8

/-- The bucket array. -/
abbrev Buckets := UInt32 → Bucket

/-- `struct cuckoohash_key`: a datum and the key after it. -/
structure KeySlot (D : Type) where
  pdata : D
  key : List UInt8

/-- What a call on `free_slots` returned. -/
inductive SlotCall where
  | put (n : UInt32)
  | get (n : UInt32)
deriving DecidableEq

/-- `struct cuckoohash_tbl`. -/
structure Tbl (D : Type) where
  /-- total table entries -/
  entries : UInt32
  /-- number of buckets in table -/
  numBuckets : UInt32
  /-- length of hash key -/
  keyLen : UInt32
  /-- bitmask for getting bucket index from hash signature -/
  bucketBitmask : UInt32
  /-- size of each key entry -/
  keyEntrySize : UInt32
  /-- real size of the whole table -/
  realSize : UInt32
  /-- ring that stores all indexes of the free slots in the key table -/
  freeSlots : Ringbuffer
  /-- table storing all keys and data -/
  keyStore : UInt32 → KeySlot D
  /-- buckets storing all the hash values and key indexes -/
  buckets : Buckets
  ringLog : List SlotCall

/-- `hash_secondary`. -/
def hashSecondary (primaryHash : UInt32) : UInt32 :=
  let allBitsShift : UInt32 := 12
  let altBitsXor : UInt32 := 0x5bd1e995
  let tag := primaryHash >>> allBitsShift
  primaryHash ^^^ ((tag + 1) * altBitsXor)

-- ============================================================== the buckets

/-- Write one entry's flag. -/
def Buckets.setFlag (bs : Buckets) (b : UInt32) (i : Fin 4) (x : UInt8) :
    Buckets :=
  Function.update bs b { bs b with flag := Function.update (bs b).flag i x }

/-- Write one entry's signatures. -/
def Buckets.setSignatures (bs : Buckets) (b : UInt32) (i : Fin 4)
    (s : Signatures) : Buckets :=
  Function.update bs b
    { bs b with signatures := Function.update (bs b).signatures i s }

/-- Write one entry's slot number. -/
def Buckets.setKeyIdx (bs : Buckets) (b : UInt32) (i : Fin 4) (x : UInt32) :
    Buckets :=
  Function.update bs b
    { bs b with keyIdx := Function.update (bs b).keyIdx i x }

/-- The first empty entry of a bucket. -/
def Bucket.freeEntry (bkt : Bucket) : Option (Fin 4) :=
  bucketEntries.find? fun i => (bkt.signatures i).sig == nullSignature

/-- Copy entry `i` of bucket `b`, with its signatures swapped, to entry `j`
of bucket `nb`, field by field. -/
def pushEntry (bs : Buckets) (b : UInt32) (i : Fin 4) (nb : UInt32)
    (j : Fin 4) : Buckets :=
  let bs := bs.setSignatures nb j
    { (bs nb).signatures j with alt := ((bs b).signatures i).current }
  let bs := bs.setSignatures nb j
    { (bs nb).signatures j with current := ((bs b).signatures i).alt }
  bs.setKeyIdx nb j ((bs b).keyIdx i)

/-- The alternative bucket of an entry. -/
def nextBucketIdx (mask : UInt32) (bs : Buckets) (b : UInt32) (i : Fin 4) :
    UInt32 :=
  ((bs b).signatures i).alt &&& mask

/-- `make_space_bucket`: the entry of bucket `b` that has been copied to its
alternative bucket, or an error. -/
def makeSpaceBucket (mask : UInt32) :
    Nat → Buckets → UInt32 → Option (Buckets × Except Int (Fin 4))
  | 0, _, _ => none
  | fuel + 1, bs, b =>
      -- search for space in alternative locations
      match bucketEntries.find? fun i =>
          (bs (nextBucketIdx mask bs b i)).freeEntry.isSome with
      | some i =>
          let nb := nextBucketIdx mask bs b i
          let j := (bs nb).freeEntry.getD 0
          some (pushEntry bs b i nb j, .ok i)
      | none =>
          -- pick entry that has not been pushed yet
          match bucketEntries.find? fun i => (bs b).flag i == 0 with
          | none => some (bs, .error (-ENOSPC))
          | some i =>
              let nb := nextBucketIdx mask bs b i
              (makeSpaceBucket mask fuel (bs.setFlag b i 1) nb).map fun r =>
                let bs := r.1.setFlag b i 0
                match r.2 with
                | .ok j => (pushEntry bs b i nb j, .ok i)
                | .error e => (bs, .error e)

-- ================================================================ the slots

section Table

variable {D : Type}

/-- `hash`. -/
def hash (h : Tbl D) (key : List UInt8) : UInt32 :=
  hashCrc32c key h.keyLen cuckooHashInitVal

/-- The key slot a slot number stands for. -/
def Tbl.slot (h : Tbl D) (idx : UInt32) : KeySlot D :=
  h.keyStore (idx * h.keyEntrySize)

/-- Write a key slot. -/
def Tbl.setSlot (h : Tbl D) (idx : UInt32) (k : KeySlot D) : Tbl D :=
  { h with keyStore := Function.update h.keyStore (idx * h.keyEntrySize) k }

/-- `ringbuffer_put` of a slot number on `free_slots`. -/
def putSlot (h : Tbl D) (idx : UInt32) : Option (Tbl D) :=
  let bytes := leBytes 4 idx.toNat
  (ringbufferPut h.freeSlots (fun i => bytes.getD i 0) 4).map
    fun r => { h with freeSlots := r.1, ringLog := h.ringLog ++ [.put r.2] }

/-- `ringbuffer_get` of a slot number: the number of bytes and the slot. -/
def getSlot (h : Tbl D) : Tbl D × UInt32 × UInt32 :=
  let (r, n, bytes) := ringbufferGet h.freeSlots 4
  ({ h with freeSlots := r, ringLog := h.ringLog ++ [.get n] }, n,
    UInt32.ofNat (ofLeBytes bytes))

/-- Fill one entry of a bucket. -/
def Tbl.setEntry (h : Tbl D) (b : UInt32) (i : Fin 4) (sig altHash idx : UInt32) :
    Tbl D :=
  { h with
    buckets := (h.buckets.setSignatures b i
      { current := sig, alt := altHash }).setKeyIdx b i idx }

/-- The key an entry's slot holds. -/
def Tbl.keyAt (h : Tbl D) (b : UInt32) (i : Fin 4) : List UInt8 :=
  (h.slot ((h.buckets b).keyIdx i)).key

-- ================================================================ add

/-- The key is already in entry `i` of bucket `b`: give the slot back and
write the datum to the slot of that entry. -/
def updateEntry (h : Tbl D) (slotId : UInt32) (b : UInt32) (i : Fin 4)
    (data : D) : Option (Tbl D × Int) :=
  (putSlot h slotId).map fun h =>
    let idx := (h.buckets b).keyIdx i
    (h.setSlot idx { h.slot idx with pdata := data }, toInt32 (idx - 1))

/-- The entry of a bucket that holds a key with this pair of hashes. -/
def findEntry (h : Tbl D) (key : List UInt8) (b current alt : UInt32) :
    Option (Fin 4) :=
  bucketEntries.find? fun i =>
    ((h.buckets b).signatures i).current == current
      && ((h.buckets b).signatures i).alt == alt
      && key == h.keyAt b i

/-- The end of `__cuckoohash_add_key_with_hash`: the key is new and lies in
slot `newIdx`. -/
def insertEntry (h : Tbl D) (prim sig altHash newIdx : UInt32) :
    Option (Tbl D × Int) :=
  -- insert new entry if there is room in the primary bucket
  match (h.buckets prim).freeEntry with
  | some i => some (h.setEntry prim i sig altHash newIdx, toInt32 (newIdx - 1))
  | none =>
      -- primary bucket is full, so we need to make space for new entry
      match makeSpaceBucket h.bucketBitmask
          (4 * (h.bucketBitmask.toNat + 1) + 1) h.buckets prim with
      | none => none
      | some (bs, .ok i) =>
          some (({ h with buckets := bs } : Tbl D).setEntry prim i sig altHash
            newIdx, toInt32 (newIdx - 1))
      | some (bs, .error e) =>
          -- error in addition, store new slot back in the ring
          (putSlot { h with buckets := bs } newIdx).map fun h => (h, e)

/-- `__cuckoohash_add_key_with_hash`. -/
def addKeyWithHash (h : Tbl D) (key : List UInt8) (sig : UInt32) (data : D) :
    Option (Tbl D × Int) :=
  let prim := sig &&& h.bucketBitmask
  let altHash := hashSecondary sig
  let sec := altHash &&& h.bucketBitmask
  -- get a new slot for storing the new key
  let (h, n, slotId) := getSlot h
  if n != 4 then some (h, -ENOSPC)
  else
    -- check if key is already inserted in primary location
    match findEntry h key prim sig altHash with
    | some i => updateEntry h slotId prim i data
    | none =>
        -- check if key is already inserted in secondary location
        match findEntry h key sec altHash sig with
        | some i => updateEntry h slotId sec i data
        | none =>
            -- copy key
            insertEntry (h.setSlot slotId { pdata := data, key := key }) prim sig
              altHash slotId

/-- `cuckoohash_add_key_data`. -/
def cuckoohashAddKeyData (h : Tbl D) (key : List UInt8) (data : D) :
    Option (Tbl D × Int) :=
  (addKeyWithHash h key (hash h key) data).map fun (h, ret) =>
    (h, if ret ≥ 0 then 0 else ret)

-- ================================================================ lookup

/-- The scan of a bucket for a key by its current hash alone. -/
def findCurrent (h : Tbl D) (key : List UInt8) (b current : UInt32) :
    Option (Fin 4) :=
  bucketEntries.find? fun i =>
    ((h.buckets b).signatures i).current == current
      && ((h.buckets b).signatures i).sig != nullSignature
      && key == h.keyAt b i

/-- The scan of the primary bucket. -/
def scanPrimary (h : Tbl D) (key : List UInt8) (sig : UInt32) :
    Option (Fin 4) :=
  findCurrent h key (sig &&& h.bucketBitmask) sig

/-- The scan of the secondary bucket in lookup. -/
def scanSecondary (h : Tbl D) (key : List UInt8) (sig : UInt32) :
    Option (Fin 4) :=
  let altHash := hashSecondary sig
  findEntry h key (altHash &&& h.bucketBitmask) altHash sig

/-- What a lookup returns for the entry it stops at: the slot number without
the dummy slot, and the datum. -/
def lookupResult (h : Tbl D) (b : UInt32) (i : Fin 4) : Int × Option D :=
  let idx := (h.buckets b).keyIdx i
  (toInt32 (idx - 1), some (h.slot idx).pdata)

/-- The first half of `__cuckoohash_lookup_with_hash`. -/
def lookupPrimary (h : Tbl D) (key : List UInt8) (sig : UInt32) :
    Option (Int × Option D) :=
  (scanPrimary h key sig).map (lookupResult h (sig &&& h.bucketBitmask))

/-- The second half. -/
def lookupSecondary (h : Tbl D) (key : List UInt8) (sig : UInt32) :
    Int × Option D :=
  match scanSecondary h key sig with
  | some i => lookupResult h (hashSecondary sig &&& h.bucketBitmask) i
  | none => (-ENOENT, none)

/-- `__cuckoohash_lookup_with_hash`. -/
def lookupWithHash (h : Tbl D) (key : List UInt8) (sig : UInt32) :
    Int × Option D :=
  match lookupPrimary h key sig with
  | some r => r
  | none => lookupSecondary h key sig

/-- `cuckoohash_lookup_data`. -/
def cuckoohashLookupData (h : Tbl D) (key : List UInt8) : Int × Option D :=
  lookupWithHash h key (hash h key)

-- ================================================================ delete

/-- Empty an entry and give its slot back. -/
def dropEntry (h : Tbl D) (b : UInt32) (i : Fin 4) : Option (Tbl D × Int) :=
  let idx := (h.buckets b).keyIdx i
  (putSlot
    { h with buckets := h.buckets.setSignatures b i { current := 0, alt := 0 } }
    idx).map fun h => (h, toInt32 (idx - 1))

/-- `__cuckoohash_del_key_with_hash`; unlike the one of lookup, its second
scan does not look at `alt`. -/
def delKeyWithHash (h : Tbl D) (key : List UInt8) (sig : UInt32) :
    Option (Tbl D × Int) :=
  match scanPrimary h key sig with
  | some i => dropEntry h (sig &&& h.bucketBitmask) i
  | none =>
      let altHash := hashSecondary sig
      let b := altHash &&& h.bucketBitmask
      match findCurrent h key b altHash with
      | some i => dropEntry h b i
      | none => some (h, -ENOENT)

/-- `cuckoohash_del_key`. -/
def cuckoohashDelKey (h : Tbl D) (key : List UInt8) : Option (Tbl D × Int) :=
  delKeyWithHash h key (hash h key)

-- ================================================================ iterate

/-- The loop of `cuckoohash_iterate` that skips empty positions, with `fuel`
positions left: the position it stops at, or `none` at the end of the
table. -/
def skipEmpty (h : Tbl D) : Nat → UInt32 → Option UInt32
  | 0, _ => none
  | fuel + 1, next =>
      let idx : Fin 4 := ⟨next.toNat % 4, Nat.mod_lt _ (by decide)⟩
      if ((h.buckets (next / 4)).signatures idx).sig == nullSignature then
        skipEmpty h fuel (next + 1)
      else some next

/-- `cuckoohash_iterate`: what it returns, the key and the datum, and the new
cursor. -/
def cuckoohashIterate (h : Tbl D) (next : UInt32) :
    Int × Option (List UInt8 × D) × UInt32 :=
  let totalEntries := h.numBuckets * 4
  if next ≥ totalEntries then (-ENOENT, none, next)
  else
    match skipEmpty h (totalEntries - next).toNat next with
    | none => (-ENOENT, none, totalEntries)
    | some next =>
        let idx : Fin 4 := ⟨next.toNat % 4, Nat.mod_lt _ (by decide)⟩
        let position := (h.buckets (next / 4)).keyIdx idx
        (toInt32 (position - 1),
          some ((h.slot position).key, (h.slot position).pdata), next + 1)

-- ================================================================ create

def sizeofTbl : UInt32 := 48
def sizeofBucket : UInt32 := 56
def sizeofKey : UInt32 := 8

/-- The entries a table is created with. -/
def entriesOf (entryNr : UInt32) : UInt32 :=
  if entryNr < hashEntriesMin then hashEntriesMin else entryNr

/-- The table in zeroed memory, its header filled in; `default` is what
zeroed memory holds as a datum. -/
def zeroedTbl [Inhabited D] (key entryNr bucketNr realSize : UInt32)
    (r : Ringbuffer) : Tbl D :=
  { entries := entryNr, numBuckets := bucketNr, keyLen := key
    bucketBitmask := bucketNr - 1
    keyEntrySize := sizeofKey + key, realSize := realSize, freeSlots := r
    keyStore := fun _ =>
      { pdata := default, key := List.replicate key.toNat 0 }
    buckets := fun _ =>
      { signatures := fun _ => { current := 0, alt := 0 }
        keyIdx := fun _ => 0, flag := fun _ => 0 }
    ringLog := [] }

/-- `cuckoohash_create`: the error, or the table. -/
def cuckoohashCreate [Inhabited D] (mmapOk : UInt32 → Bool) (env : CreateEnv)
    (key entryNr : UInt32) : Option (Except Int (Tbl D)) :=
  if key ≤ 0 || entryNr ≤ 0 then some (.error (-EINVAL))
  else
    let entryNr := entriesOf entryNr
    let bucketNr := roundup2 entryNr / 4
    let realSize := sizeofTbl + bucketNr * sizeofBucket
      + (entryNr + 1) * (sizeofKey + key)
    if !mmapOk realSize then some (.error (-ENOMEM))
    else
      match ringbufferCreate env none (4 * (entryNr + 1)) with
      | none => some (.error (-ENOMEM))
      | some r =>
          -- populate the free slots ring; entry zero is reserved
          ((List.range' 1 ((entryNr + 1).toNat - 1)).foldlM
            (fun h i => putSlot h (UInt32.ofNat i))
            (zeroedTbl key entryNr bucketNr realSize r)).map .ok

end Table

end PktSender.Cuckoo
