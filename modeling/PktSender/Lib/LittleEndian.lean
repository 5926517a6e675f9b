/-
Little-endian byte strings of fixed length and the numbers they encode, as
a C program sees them when it passes the address of an integer to a
byte-wise copy and reads the copy back as an integer.

`leBytes n x` is what lies in memory at an `n`-byte integer with value `x`
(higher digits are cut off, as the narrowing conversion does), and
`ofLeBytes` reads such a string back, which gives a number below `256 ^ n`
back (`ofLeBytes_leBytes`).

`readAt` is the integer at a place of a larger string, such as a field of a
structure.
-/
import Mathlib.Data.List.Basic
import Mathlib.Tactic.Ring

namespace LittleEndian

/-- The `n` low-order bytes of a number, least significant first. -/
def leBytes : Nat → Nat → List UInt8
  | 0, _ => []
  | n + 1, x => UInt8.ofNat x :: leBytes n (x / 256)

/-- The number a byte string encodes, least significant byte first. -/
def ofLeBytes : List UInt8 → Nat
  | [] => 0
  | b :: rest => b.toNat + 256 * ofLeBytes rest

@[simp] theorem leBytes_length (n x : Nat) : (leBytes n x).length = n := by
  induction n generalizing x with
  | zero => rfl
  | succ n ih => simp [leBytes, ih]

/-- The bytes behind the first ones are the higher digits. -/
theorem ofLeBytes_append (as bs : List UInt8) :
    ofLeBytes (as ++ bs) = ofLeBytes as + 256 ^ as.length * ofLeBytes bs := by
  induction as with
  | nil => simp [ofLeBytes]
  | cons a as ih =>
      rw [List.cons_append, ofLeBytes, ofLeBytes, ih, List.length_cons]
      ring

/-- Reading back what was stored gives the stored number, cut to the
width. -/
theorem ofLeBytes_leBytes (n x : Nat) :
    ofLeBytes (leBytes n x) = x % 256 ^ n := by
  induction n generalizing x with
  | zero => simp [leBytes, ofLeBytes, Nat.mod_one]
  | succ n ih =>
      rw [leBytes, ofLeBytes, ih, UInt8.toNat_ofNat',
        show 256 ^ (n + 1) = 256 * 256 ^ n from pow_succ' 256 n, Nat.mod_mul]

/-- And the other way round. -/
theorem leBytes_ofLeBytes (bs : List UInt8) : leBytes bs.length (ofLeBytes bs) = bs := by
  induction bs with
  | nil => rfl
  | cons b bs ih =>
      have hlt := b.toNat_lt
      rw [List.length_cons, leBytes, ofLeBytes]
      congr 1
      · rw [← UInt8.toNat_inj, UInt8.toNat_ofNat']
        omega
      · rw [show (b.toNat + 256 * ofLeBytes bs) / 256 = ofLeBytes bs by omega, ih]

theorem ofLeBytes_lt (bs : List UInt8) : ofLeBytes bs < 256 ^ bs.length := by
  induction bs with
  | nil => exact Nat.one_pos
  | cons b bs ih =>
      have hlt := b.toNat_lt
      rw [ofLeBytes, List.length_cons, pow_succ']
      omega

/-- The `n`-byte integer at an offset. -/
def readAt (off n : Nat) (bs : List UInt8) : Nat := ofLeBytes ((bs.drop off).take n)

/-- Past what lies in front of it. -/
theorem readAt_append {pre : List UInt8} {off : Nat} (hoff : pre.length ≤ off) (n : Nat)
    (bs : List UInt8) : readAt off n (pre ++ bs) = readAt (off - pre.length) n bs := by
  unfold readAt
  rw [List.drop_append, List.drop_eq_nil_of_le hoff, List.nil_append]

/-- At the front. -/
theorem readAt_leBytes (n x : Nat) (bs : List UInt8) :
    readAt 0 n (leBytes n x ++ bs) = x % 256 ^ n := by
  unfold readAt
  rw [List.drop_zero, List.take_left' (leBytes_length n x), ofLeBytes_leBytes]

theorem readAt_leBytes_self (n x : Nat) : readAt 0 n (leBytes n x) = x % 256 ^ n := by
  have h := readAt_leBytes n x []
  rwa [List.append_nil] at h

theorem readAt_cons (b : UInt8) (bs : List UInt8) : readAt 0 1 (b :: bs) = b.toNat := by
  simp [readAt, ofLeBytes]

theorem readAt_cons_succ (b : UInt8) (bs : List UInt8) (off n : Nat) :
    readAt (off + 1) n (b :: bs) = readAt off n bs := rfl

end LittleEndian
