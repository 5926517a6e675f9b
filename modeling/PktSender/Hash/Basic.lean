/-
`hash_crc32c` of tools/hash.c: a CRC-32C by table look-ups, eight bytes at a
time and a tail of up to seven.

The data is the list of the bytes at `data`; words are read little-endian,
as on the 64-bit target. The tail is the source's `switch` on
`7 - (data_len & 7)` with its fall-throughs: each case adds one more byte of
the tail to `temp`, and the words are shorter than four bytes at cases 4 to 6
and longer at cases 0 to 2.
-/
import PktSender.Lib.LittleEndian
import PktSender.Hash.Tables
import Mathlib.Tactic.Common

namespace PktSender.Hash

open LittleEndian

theorem low_byte_lt (x : UInt32) : (x &&& 0xff).toNat < 256 := by
  rw [UInt32.toNat_and]
  exact Nat.lt_of_le_of_lt Nat.and_le_right (by decide)

/-- `crc32c_tables[n][x & 0xff]`. -/
def crc32cEntry (n : Fin 8) (x : UInt32) : UInt32 :=
  (crc32cTables.get n).get ⟨(x &&& 0xff).toNat, low_byte_lt x⟩

/-- `CRC32_UPD`. -/
def crc32Upd (crc : UInt32) (n : Fin 8) : UInt32 :=
  crc32cEntry n crc ^^^ crc32cEntry (n - 1) (crc >>> 8)

/-- `crc32c_u32`. -/
def crc32cU32 (data initVal : UInt32) : UInt32 :=
  let crc := initVal ^^^ data
  let term1 := crc32Upd crc 3
  let term2 := crc >>> 16
  term1 ^^^ crc32Upd term2 1

/-- `crc32c_u64`; the union's words are the low and the high half. -/
def crc32cU64 (data : UInt64) (initVal : UInt32) : UInt32 :=
  let lo := data.toUInt32
  let hi := (data >>> 32).toUInt32
  let crc := initVal ^^^ lo
  let term1 := crc32Upd crc 7
  let term2 := crc >>> 16
  let crc := term1 ^^^ crc32Upd term2 5
  let term1 := crc32Upd hi 3
  let term2 := hi >>> 16
  crc ^^^ (term1 ^^^ crc32Upd term2 1)

/-- The 64-bit word at a pointer. -/
def word64 (pd : List UInt8) : UInt64 := UInt64.ofNat (ofLeBytes (pd.take 8))

/-- The 32-bit word at a pointer. -/
def word32 (pd : List UInt8) : UInt32 := UInt32.ofNat (ofLeBytes (pd.take 4))

/-- The loop over whole 64-bit words: the pointer and the value after `n` of
them. -/
def hashWords : Nat → List UInt8 → UInt32 → List UInt8 × UInt32
  | 0, pd, initVal => (pd, initVal)
  | n + 1, pd, initVal =>
      hashWords n (pd.drop 8) (crc32cU64 (word64 pd) initVal)

/-- The `switch` over the bytes that are left. -/
def hashTail (pd : List UInt8) (sel : Nat) (initVal : UInt32) : UInt32 :=
  let at8 := fun i => (pd.getD i 0).toUInt64
  let at32 := fun i => (pd.getD i 0).toUInt32
  match sel with
  | 0 =>
      crc32cU64 (at8 6 <<< 48 ||| at8 5 <<< 40 ||| at8 4 <<< 32
        ||| (word32 pd).toUInt64) initVal
  | 1 =>
      crc32cU64 (at8 5 <<< 40 ||| at8 4 <<< 32 ||| (word32 pd).toUInt64) initVal
  | 2 => crc32cU64 (at8 4 <<< 32 ||| (word32 pd).toUInt64) initVal
  | 3 => crc32cU32 (word32 pd) initVal
  | 4 => crc32cU32 (at32 2 <<< 16 ||| at32 1 <<< 8 ||| at32 0) initVal
  | 5 => crc32cU32 (at32 1 <<< 8 ||| at32 0) initVal
  | 6 => crc32cU32 (at32 0) initVal
  | _ => initVal

/-- `hash_crc32c`. -/
def hashCrc32c (data : List UInt8) (dataLen initVal : UInt32) : UInt32 :=
  let (pd, initVal) := hashWords (dataLen / 8).toNat data initVal
  hashTail pd (7 - (dataLen &&& 7)).toNat initVal

/-- Two short strings, the second with a whole word and a tail. -/
example : hashCrc32c [1] 1 7 = 0xc4451272
    ∧ hashCrc32c [1, 2, 3, 4, 5, 6, 7, 8, 9] 9 7 = 0x7f1a0497 := by
  decide +kernel

end PktSender.Hash
