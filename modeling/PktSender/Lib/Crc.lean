/-
The register of a reflected CRC, bit by bit.

# One bit at a time

A reflected CRC keeps its register with the lowest-order coefficient in the
top bit. Feeding a zero bit shifts the register right by one and, when a one
falls out, adds the polynomial (`bitStep`); feeding a data bit first adds it
to the bit that falls out. Everything else is `n` such steps in a row
(`shift`), and `shift` is linear over exclusive or.

# Slices

Because of linearity the register can be cut into slices and each slice
shifted on its own (`shift_split`): bits whose lower neighbours are all zero
just move down. That is what a table of shifted bytes computes, whatever the
width of the register, the width of the slices and the polynomial.

# Data

`feed` is the register on a byte string: for each byte, its bits from the
lowest on. A string no longer than the register is one exclusive or with the
little-endian number it is, and then as many zeros (`feed_eq_shift`).

# Nothing is lost

With a polynomial whose top bit is set (a constant term) `bitStep` is
injective, and so every `shift` is a bijection of the register.
-/
import PktSender.Lib.LittleEndian
import Mathlib.Data.Fintype.EquivFin
import Mathlib.Data.Fintype.Card
import Mathlib.Logic.Function.Iterate

namespace Crc

open LittleEndian (ofLeBytes)

variable {w : Nat}

/-- Feed one zero bit. -/
def bitStep (p x : BitVec w) : BitVec w :=
  (x >>> 1) ^^^ (if x.getLsbD 0 then p else 0)

/-- Feed `n` zero bits. -/
def shift (p : BitVec w) (n : Nat) (x : BitVec w) : BitVec w :=
  (bitStep p)^[n] x

theorem getLsbD_bitStep (p x : BitVec w) (i : Nat) :
    (bitStep p x).getLsbD i
      = (x.getLsbD (i + 1) ^^ (x.getLsbD 0 && p.getLsbD i)) := by
  unfold bitStep
  rw [BitVec.getLsbD_xor, BitVec.getLsbD_ushiftRight, Nat.add_comm 1 i]
  cases x.getLsbD 0 <;> simp

/-- One step is linear. -/
theorem bitStep_xor (p x y : BitVec w) :
    bitStep p (x ^^^ y) = bitStep p x ^^^ bitStep p y := by
  apply BitVec.eq_of_getLsbD_eq
  intro i _
  simp only [getLsbD_bitStep, BitVec.getLsbD_xor]
  cases x.getLsbD (i + 1) <;> cases y.getLsbD (i + 1) <;> cases x.getLsbD 0
    <;> cases y.getLsbD 0 <;> cases p.getLsbD i <;> rfl

/-- Any number of steps is linear. -/
theorem shift_xor (p : BitVec w) (n : Nat) (x y : BitVec w) :
    shift p n (x ^^^ y) = shift p n x ^^^ shift p n y := by
  unfold shift
  induction n generalizing x y with
  | zero => rfl
  | succ n ih =>
      rw [Function.iterate_succ_apply, Function.iterate_succ_apply,
        Function.iterate_succ_apply, bitStep_xor, ih]

theorem shift_add (p : BitVec w) (m n : Nat) (x : BitVec w) :
    shift p (m + n) x = shift p m (shift p n x) :=
  Function.iterate_add_apply (bitStep p) m n x

theorem shift_succ (p : BitVec w) (n : Nat) (x : BitVec w) :
    shift p (n + 1) x = bitStep p (shift p n x) :=
  Function.iterate_succ_apply' (bitStep p) n x

/-- A register whose `n` lowest bits are zero just moves down. -/
theorem shift_of_low_zero (p : BitVec w) {n : Nat} {x : BitVec w}
    (h : ∀ i < n, x.getLsbD i = false) : shift p n x = x >>> n := by
  unfold shift
  induction n generalizing x with
  | zero => rfl
  | succ n ih =>
      have hstep : bitStep p x = x >>> 1 := by
        unfold bitStep
        rw [h 0 (Nat.succ_pos n), if_neg Bool.false_ne_true]
        exact BitVec.xor_zero
      rw [Function.iterate_succ_apply, hstep, ih fun i hi => ?_,
        ← BitVec.shiftRight_add, Nat.add_comm]
      rw [BitVec.getLsbD_ushiftRight]
      exact h (1 + i) (by omega)

/-- Cut the register after its `n` lowest bits: these are shifted in full,
the rest only by what is left once they have moved down. -/
theorem shift_split (p : BitVec w) {n m : Nat} {x low : BitVec w}
    (hlow : ∀ i, low.getLsbD i = (decide (i < n) && x.getLsbD i)) :
    shift p (m + n) x = shift p (m + n) low ^^^ shift p m (x >>> n) := by
  have hhigh : ∀ i < n, (x ^^^ low).getLsbD i = false := by
    intro i hi
    rw [BitVec.getLsbD_xor, hlow, decide_eq_true hi, Bool.true_and,
      Bool.xor_self]
  have hdown : (x ^^^ low) >>> n = x >>> n := by
    apply BitVec.eq_of_getLsbD_eq
    intro i _
    rw [BitVec.getLsbD_ushiftRight, BitVec.getLsbD_ushiftRight,
      BitVec.getLsbD_xor, hlow, decide_eq_false (by omega), Bool.false_and,
      Bool.xor_false]
  calc shift p (m + n) x
      = shift p (m + n) (low ^^^ (x ^^^ low)) := by
        rw [BitVec.xor_comm x low, ← BitVec.xor_assoc, BitVec.xor_self,
          BitVec.zero_xor]
    _ = shift p (m + n) low ^^^ shift p m (shift p n (x ^^^ low)) := by
        rw [shift_xor, shift_add p m n (x ^^^ low)]
    _ = shift p (m + n) low ^^^ shift p m (x >>> n) := by
        rw [shift_of_low_zero p hhigh, hdown]

-- ================================================================== data

/-- Feed one data bit: it is added to the bit that falls out. -/
def feedBit (p x : BitVec w) (b : Bool) : BitVec w :=
  (x >>> 1) ^^^ (if x.getLsbD 0 ^^ b then p else 0)

/-- Feed the `n` lowest bits of a number, from the lowest on. -/
def feedBits (p : BitVec w) (n v : Nat) (x : BitVec w) : BitVec w :=
  (List.range n).foldl (fun x i => feedBit p x (v.testBit i)) x

/-- Feed bytes. -/
def feed (p x : BitVec w) (data : List UInt8) : BitVec w :=
  data.foldl (fun x b => feedBits p 8 b.toNat x) x

theorem feed_append (p x : BitVec w) (as bs : List UInt8) :
    feed p x (as ++ bs) = feed p (feed p x as) bs :=
  List.foldl_append

theorem feedBits_succ (p : BitVec w) (n v : Nat) (x : BitVec w) :
    feedBits p (n + 1) v x = feedBit p (feedBits p n v x) (v.testBit n) := by
  rw [feedBits, List.range_succ, List.foldl_append]
  rfl

/-- Zeros are what `shift` feeds. -/
theorem feedBits_zero (p : BitVec w) (n : Nat) (x : BitVec w) :
    feedBits p n 0 x = shift p n x := by
  induction n with
  | zero => rfl
  | succ n ih =>
      rw [feedBits_succ, ih, shift_succ, Nat.zero_testBit]
      unfold feedBit bitStep
      rw [Bool.xor_false]

theorem feed_replicate_zero (p x : BitVec w) (n : Nat) :
    feed p x (List.replicate n 0) = shift p (8 * n) x := by
  induction n generalizing x with
  | zero => rfl
  | succ n ih =>
      have hbyte : feedBits p 8 (0 : UInt8).toNat x = shift p 8 x := feedBits_zero p 8 x
      rw [List.replicate_succ, feed, List.foldl_cons, hbyte, Nat.mul_succ, shift_add]
      exact ih _

theorem getLsbD_bit (hw : 0 < w) (b : Bool) (i : Nat) :
    (BitVec.ofNat w b.toNat).getLsbD i = (decide (i = 0) && b) := by
  rw [BitVec.getLsbD_ofNat]
  cases b with
  | false => simp
  | true =>
      rcases Nat.eq_zero_or_pos i with rfl | hi
      · simp [hw]
      · rw [Bool.toNat_true, Nat.testBit_lt_two_pow (Nat.one_lt_two_pow (by omega)),
          decide_eq_false (Nat.pos_iff_ne_zero.mp hi), Bool.and_false, Bool.false_and]

/-- A data bit can as well be added to the register before. -/
theorem feedBit_eq (hw : 0 < w) (p x : BitVec w) (b : Bool) :
    feedBit p x b = bitStep p (x ^^^ BitVec.ofNat w b.toNat) := by
  apply BitVec.eq_of_getLsbD_eq
  intro i _
  rw [getLsbD_bitStep, BitVec.getLsbD_xor, BitVec.getLsbD_xor, getLsbD_bit hw, getLsbD_bit hw,
    feedBit, BitVec.getLsbD_xor, BitVec.getLsbD_ushiftRight, Nat.add_comm 1 i]
  cases x.getLsbD 0 <;> cases b <;> simp

/-- Up to the width of the register, so can any number of them. -/
theorem feedBits_eq_shift (p : BitVec w) {n : Nat} (hn : n ≤ w) (v : Nat) (x : BitVec w) :
    feedBits p n v x = shift p n (x ^^^ BitVec.ofNat w (v % 2 ^ n)) := by
  induction n with
  | zero =>
      rw [Nat.pow_zero, Nat.mod_one]
      exact (BitVec.xor_zero).symm
  | succ n ih =>
      have hlow : ∀ i, (BitVec.ofNat w (v % 2 ^ (n + 1))).getLsbD i
          = (decide (i < n + 1) && v.testBit i) := by
        intro i
        rw [BitVec.getLsbD_ofNat, Nat.testBit_mod_two_pow]
        by_cases hi : i < n + 1
        · simp [hi, show i < w by omega]
        · simp [hi]
      have hlow' : ∀ i, (BitVec.ofNat w (v % 2 ^ n)).getLsbD i
          = (decide (i < n) && v.testBit i) := by
        intro i
        rw [BitVec.getLsbD_ofNat, Nat.testBit_mod_two_pow]
        by_cases hi : i < n
        · simp [hi, show i < w by omega]
        · simp [hi]
      -- the highest bit is shifted down to where the step adds it
      have hhigh : shift p n (BitVec.ofNat w (v % 2 ^ (n + 1)) ^^^ BitVec.ofNat w (v % 2 ^ n))
          = BitVec.ofNat w (v.testBit n).toNat := by
        rw [shift_of_low_zero p fun i hi => ?_]
        · apply BitVec.eq_of_getLsbD_eq
          intro i hi
          rw [BitVec.getLsbD_ushiftRight, BitVec.getLsbD_xor, hlow, hlow',
            getLsbD_bit (by omega)]
          rcases Nat.eq_zero_or_pos i with rfl | hpos
          · simp
          · rw [decide_eq_false (by omega), decide_eq_false (by omega),
              decide_eq_false (by omega), Bool.false_and]
            rfl
        · rw [BitVec.getLsbD_xor, hlow, hlow', decide_eq_true hi,
            decide_eq_true (show i < n + 1 by omega)]
          exact Bool.xor_self _
      rw [feedBits_succ, ih (by omega), feedBit_eq (by omega), ← hhigh, ← shift_xor,
        BitVec.xor_assoc, BitVec.xor_comm (BitVec.ofNat w (v % 2 ^ n)), BitVec.xor_assoc,
        BitVec.xor_self, BitVec.xor_zero, shift_succ]

theorem feedBits_add (p : BitVec w) (m n v : Nat) (x : BitVec w) :
    feedBits p (m + n) v x = feedBits p n (v >>> m) (feedBits p m v x) := by
  induction n with
  | zero => rfl
  | succ n ih =>
      rw [← Nat.add_assoc, feedBits_succ, ih, feedBits_succ, Nat.testBit_shiftRight]

/-- Only the bits that are fed count. -/
theorem feedBits_congr (p : BitVec w) {n v v' : Nat}
    (h : ∀ i < n, v.testBit i = v'.testBit i) (x : BitVec w) :
    feedBits p n v x = feedBits p n v' x := by
  induction n with
  | zero => rfl
  | succ n ih =>
      rw [feedBits_succ, feedBits_succ, ih fun i hi => h i (Nat.lt_succ_of_lt hi),
        h n (Nat.lt_succ_self n)]

/-- Bytes are the bits of a little-endian number. -/
theorem feed_eq_feedBits (p x : BitVec w) (data : List UInt8) :
    feed p x data = feedBits p (8 * data.length) (ofLeBytes data) x := by
  induction data generalizing x with
  | nil => rfl
  | cons b bs ih =>
      have hb : b.toNat < 2 ^ 8 := b.toNat_lt
      have hlow : ∀ i < 8, (ofLeBytes (b :: bs)).testBit i = b.toNat.testBit i := by
        intro i hi
        rw [ofLeBytes, Nat.add_comm, show 256 = 2 ^ 8 from rfl,
          Nat.testBit_two_pow_mul_add _ hb, if_pos hi]
      have hrest : ofLeBytes (b :: bs) >>> 8 = ofLeBytes bs := by
        rw [Nat.shiftRight_eq_div_pow, ofLeBytes]
        omega
      rw [feed, List.foldl_cons, List.length_cons, Nat.mul_succ, Nat.add_comm, feedBits_add,
        hrest, feedBits_congr p hlow]
      exact ih _

/-- A string that fits the register is added to it. -/
theorem feed_eq_shift (p x : BitVec w) {data : List UInt8} (hlen : 8 * data.length ≤ w) :
    feed p x data = shift p (8 * data.length) (x ^^^ BitVec.ofNat w (ofLeBytes data)) := by
  have hlt : ofLeBytes data < 2 ^ (8 * data.length) := by
    rw [Nat.pow_mul]
    exact LittleEndian.ofLeBytes_lt data
  rw [feed_eq_feedBits, feedBits_eq_shift p hlen, Nat.mod_eq_of_lt hlt]

-- ============================================================ fixed points

/-- A sum of shifts. -/
def combine (p : BitVec w) (ns : List Nat) (x : BitVec w) : BitVec w :=
  ns.foldr (fun n acc => shift p n x ^^^ acc) 0

theorem combine_xor (p : BitVec w) (ns : List Nat) (x y : BitVec w) :
    combine p ns (x ^^^ y) = combine p ns x ^^^ combine p ns y := by
  induction ns with
  | nil => exact BitVec.xor_zero.symm
  | cons n ns ih =>
      have hcons : ∀ z, combine p (n :: ns) z = shift p n z ^^^ combine p ns z := fun _ => rfl
      rw [hcons, hcons, hcons, ih, shift_xor]
      ac_rfl

/-- Linear maps are determined by the single bits. -/
theorem linear_ext {f g : BitVec w → BitVec w} (hf : ∀ x y, f (x ^^^ y) = f x ^^^ f y)
    (hg : ∀ x y, g (x ^^^ y) = g x ^^^ g y)
    (h : ∀ i < w, f (BitVec.twoPow w i) = g (BitVec.twoPow w i)) (x : BitVec w) : f x = g x := by
  have hzero : ∀ {e : BitVec w → BitVec w}, (∀ x y, e (x ^^^ y) = e x ^^^ e y) → e 0 = 0 := by
    intro e he
    have hself := he 0 0
    rwa [BitVec.xor_self, BitVec.xor_self] at hself
  -- the bits up to any one
  have hbits : ∀ n ≤ w, ∀ x : BitVec w, (∀ i, n ≤ i → x.getLsbD i = false) → f x = g x := by
    intro n
    induction n with
    | zero =>
        intro _ x hx
        obtain rfl : x = 0 := BitVec.eq_of_getLsbD_eq fun i _ => by
          rw [hx i (Nat.zero_le i)]
          simp
        rw [hzero hf, hzero hg]
    | succ n ih =>
        intro hn x hx
        cases hbit : x.getLsbD n with
        | false =>
            refine ih (by omega) x fun i hi => ?_
            rcases Nat.eq_or_lt_of_le hi with rfl | hlt
            · exact hbit
            · exact hx i hlt
        | true =>
            have hrest : f (x ^^^ BitVec.twoPow w n) = g (x ^^^ BitVec.twoPow w n) := by
              refine ih (by omega) _ fun i hi => ?_
              rw [BitVec.getLsbD_xor, BitVec.getLsbD_twoPow]
              rcases Nat.eq_or_lt_of_le hi with rfl | hlt
              · rw [hbit]
                simp
                omega
              · rw [hx i hlt]
                simp
                omega
            rw [hf, hg, h n (by omega)] at hrest
            exact (BitVec.xor_left_inj _).mp hrest
  exact hbits w (Nat.le_refl w) x fun i hi => BitVec.getLsbD_of_ge x i hi

/-- Two registers a zero bit does not change are the same if their lowest
bits are. -/
theorem eq_of_bitStep_eq_self {p x y : BitVec w} (hx : bitStep p x = x) (hy : bitStep p y = y)
    (hlow : x.getLsbD 0 = y.getLsbD 0) : x = y := by
  have hstep : ∀ i, (x ^^^ y).getLsbD (i + 1) = (x ^^^ y).getLsbD i := by
    intro i
    have hi := getLsbD_bitStep p (x ^^^ y) i
    rw [bitStep_xor, hx, hy, BitVec.getLsbD_xor (i := 0), hlow, Bool.xor_self, Bool.false_and,
      Bool.xor_false] at hi
    exact hi.symm
  have hzero : ∀ i, (x ^^^ y).getLsbD i = false := by
    intro i
    induction i with
    | zero => rw [BitVec.getLsbD_xor, hlow, Bool.xor_self]
    | succ i ih => rw [hstep, ih]
  apply BitVec.eq_of_getLsbD_eq
  intro i _
  have hi := hzero i
  rw [BitVec.getLsbD_xor] at hi
  simpa using hi

/-- Zeros that leave a register alone leave it alone one by one, if some sum
of shifts takes the change they make to the one a single zero makes. -/
theorem shift_eq_self_iff {p : BitVec w} {n : Nat} (ns : List Nat)
    (h : ∀ i < w, combine p ns (shift p n (BitVec.twoPow w i) ^^^ BitVec.twoPow w i)
      = bitStep p (BitVec.twoPow w i) ^^^ BitVec.twoPow w i) (x : BitVec w) :
    shift p n x = x ↔ bitStep p x = x := by
  have hlinear := linear_ext (f := fun x => combine p ns (shift p n x ^^^ x))
    (g := fun x => bitStep p x ^^^ x)
    (fun x y => by
      show combine p ns _ = _
      rw [shift_xor, ← combine_xor]
      congr 1
      ac_rfl)
    (fun x y => by
      show bitStep p _ ^^^ _ = _
      rw [bitStep_xor]
      ac_rfl) h x
  constructor
  · intro hself
    have hcombine : combine p ns (0 : BitVec w) = 0 := by
      have hzero := combine_xor p ns 0 0
      rwa [BitVec.xor_self, BitVec.xor_self] at hzero
    simp only [hself, BitVec.xor_self, show (0#w) = 0 from rfl, hcombine] at hlinear
    exact BitVec.xor_eq_zero_iff.mp hlinear.symm
  · intro hself
    unfold shift
    exact Function.iterate_fixed hself n

-- ============================================================= bijection

/-- A step loses nothing: a one that falls out sets the top bit. -/
theorem bitStep_injective {p : BitVec w} (hp : p.getLsbD (w - 1) = true) :
    Function.Injective (bitStep p) := by
  intro x y h
  have hbit : ∀ i, (x.getLsbD (i + 1) ^^ (x.getLsbD 0 && p.getLsbD i))
      = (y.getLsbD (i + 1) ^^ (y.getLsbD 0 && p.getLsbD i)) := fun i => by
    rw [← getLsbD_bitStep, ← getLsbD_bitStep, h]
  have hzero : x.getLsbD 0 = y.getLsbD 0 := by
    have htop := hbit (w - 1)
    rw [hp, BitVec.getLsbD_of_ge x _ (by omega),
      BitVec.getLsbD_of_ge y _ (by omega)] at htop
    simpa using htop
  apply BitVec.eq_of_getLsbD_eq
  intro i _
  cases i with
  | zero => exact hzero
  | succ i =>
      have := hbit i
      rw [hzero] at this
      exact Bool.xor_left_inj.mp this

theorem shift_injective {p : BitVec w} (hp : p.getLsbD (w - 1) = true)
    (n : Nat) : Function.Injective (shift p n) :=
  (bitStep_injective hp).iterate n

/-- Every register value is reached from exactly one. -/
theorem shift_surjective {p : BitVec w} (hp : p.getLsbD (w - 1) = true)
    (n : Nat) : Function.Surjective (shift p n) := by
  have : Finite (BitVec w) :=
    Finite.of_injective (fun x : BitVec w => x.toFin) fun x y h =>
      BitVec.eq_of_toFin_eq h
  exact Finite.surjective_of_injective (shift_injective hp n)

end Crc
