/-
Big-endian byte strings, which is how numbers go over the network.

`beBytes n x` and `ofBeBytes` are the little-endian strings the other way
round, and take their laws from there. A little-endian host stores such a
string when it stores a number whose bytes it has swapped before
(`leBytes_swap`).
-/
import PktSender.Lib.LittleEndian

namespace BigEndian

open LittleEndian

/-- The `n` low-order bytes of a number, most significant first. -/
def beBytes (n x : Nat) : List UInt8 := (leBytes n x).reverse

/-- The number a byte string encodes, most significant byte first. -/
def ofBeBytes (bs : List UInt8) : Nat := ofLeBytes bs.reverse

/-- A number with its `n` low-order bytes in the opposite order. -/
def swap (n x : Nat) : Nat := ofLeBytes (beBytes n x)

@[simp] theorem beBytes_length (n x : Nat) : (beBytes n x).length = n := by
  rw [beBytes, List.length_reverse, leBytes_length]

theorem ofBeBytes_beBytes (n x : Nat) : ofBeBytes (beBytes n x) = x % 256 ^ n := by
  rw [ofBeBytes, beBytes, List.reverse_reverse, ofLeBytes_leBytes]

theorem leBytes_swap (n x : Nat) : leBytes n (swap n x) = beBytes n x := by
  have h := leBytes_ofLeBytes (beBytes n x)
  rwa [beBytes_length] at h

theorem swap_lt (n x : Nat) : swap n x < 256 ^ n := by
  have h := ofLeBytes_lt (beBytes n x)
  rwa [beBytes_length] at h

end BigEndian
