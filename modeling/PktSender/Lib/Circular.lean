/-
Byte ranges in a flat memory read modulo a size: the arithmetic and the
copying facts behind any ring buffer.

A memory is a function `Nat → α`. Positions in the stream a ring buffer
carries are natural numbers that only grow; the cell of position `p` in a
ring of `n` cells is `p % n`. Two positions less than `n` apart have
different cells (`mod_inj_window`), and that is the only fact about `%`
the ring proofs need: everything else is interval arithmetic on positions.

# Main definitions

- `copyLoop`: a loop that copies one element per iteration, the address
  given by an arbitrary function. `memcpy` is the straight-line case.
- `ringLoad`: the contents of a run of positions, read cell by cell.

`memcpyWrap_apply` and `load_wrap` say that copying in two parts at the
wrap point, the way ring buffers do, is the same as going through the
positions one at a time.
-/
import Mathlib.Data.Nat.ModEq
import Mathlib.Logic.Function.Basic
import Mathlib.Data.List.Basic

namespace Circular

variable {α : Type*}

-- ============================================================ positions

/-- Positions less than one revolution apart have different cells. -/
theorem mod_inj_window {n a b : Nat} (hab : a ≤ b) (hlt : b < a + n)
    (h : a % n = b % n) : a = b := by
  have hdvd : n ∣ b - a := (Nat.modEq_iff_dvd' hab).mp h
  have hz : b - a = 0 := Nat.eq_zero_of_dvd_of_lt hdvd (by omega)
  omega

/-- The symmetric form: two positions inside one window of `n`. -/
theorem mod_ne_of_ne {n l p q : Nat} (hp : l ≤ p) (hp' : p < l + n)
    (hq : l ≤ q) (hq' : q < l + n) (hne : p ≠ q) : p % n ≠ q % n := by
  intro h
  rcases Nat.lt_or_ge p q with hlt | hge
  · exact hne (mod_inj_window (by omega) (by omega) h)
  · exact hne (mod_inj_window hge (by omega) h.symm).symm

/-- The address of byte `i` in a copy that starts at offset `off` and goes
on at address 0 once `l` bytes are copied, as a position modulo the size. -/
theorem wrap_addr {n off i : Nat} (hoff : off < n) (hi : i < n) :
    (if i < n - off then off + i else i - (n - off)) = (off + i) % n := by
  split
  · rw [Nat.mod_eq_of_lt (by omega)]
  · rw [Nat.mod_eq_sub_mod (by omega), Nat.mod_eq_of_lt (by omega)]
    omega

-- ============================================================== copying

/-- A copy loop: element `i`, for `i` from `lo` on, goes to address
`addr i`. -/
def copyLoop (mem : Nat → α) (addr : Nat → Nat) (src : Nat → α) (lo : Nat) :
    Nat → Nat → α
  | 0 => mem
  | c + 1 =>
      Function.update (copyLoop mem addr src lo c) (addr (lo + c))
        (src (lo + c))

/-- The library copy of `n` elements to `dst`. -/
def memcpy (mem : Nat → α) (dst : Nat) (src : Nat → α) (n : Nat) : Nat → α :=
  copyLoop mem (dst + ·) src 0 n

/-- Copying `len` elements to offset `off` of a ring of `n` cells in two
parts, first up to the end of the ring and then from its start. -/
def memcpyWrap (mem : Nat → α) (n off : Nat) (src : Nat → α) (len : Nat) :
    Nat → α :=
  let l := min len (n - off)
  memcpy (memcpy mem off src l) 0 (fun k => src (l + k)) (len - l)

/-- A copy loop leaves every other address alone. -/
theorem copyLoop_of_ne {mem : Nat → α} {addr : Nat → Nat} {src : Nat → α}
    {lo c j : Nat} (h : ∀ i, lo ≤ i → i < lo + c → j ≠ addr i) :
    copyLoop mem addr src lo c j = mem j := by
  induction c with
  | zero => rfl
  | succ c ih =>
      rw [copyLoop, Function.update_of_ne (h _ (by omega) (by omega))]
      exact ih fun i h1 h2 => h i h1 (by omega)

/-- A copy loop to distinct addresses writes each element to its
address. -/
theorem copyLoop_apply {mem : Nat → α} {addr : Nat → Nat} {src : Nat → α}
    {lo c : Nat}
    (hinj : ∀ i j, lo ≤ i → i < j → j < lo + c → addr i ≠ addr j)
    {i : Nat} (h1 : lo ≤ i) (h2 : i < lo + c) :
    copyLoop mem addr src lo c (addr i) = src i := by
  induction c with
  | zero => omega
  | succ c ih =>
      rw [copyLoop]
      rcases Nat.lt_or_ge i (lo + c) with hlt | hge
      · rw [Function.update_of_ne (hinj i (lo + c) h1 hlt (by omega))]
        exact ih (fun a b ha hab hb => hinj a b ha hab (by omega)) hlt
      · obtain rfl : i = lo + c := by omega
        exact Function.update_self ..

/-- `memcpy`, address by address. -/
theorem memcpy_apply (mem : Nat → α) (dst : Nat) (src : Nat → α) (n j : Nat) :
    memcpy mem dst src n j
      = if dst ≤ j ∧ j < dst + n then src (j - dst) else mem j := by
  unfold memcpy
  split
  next h =>
    have := @copyLoop_apply α mem (dst + ·) src 0 n
      (fun i k _ hik _ => by omega) (j - dst) (by omega) (by omega)
    simpa [show dst + (j - dst) = j by omega] using this
  next h =>
    refine copyLoop_of_ne fun i _ hi => ?_
    omega

/-- In a two-part copy to offset `off`, element `i` lands in the cell of
position `off + i`. -/
theorem memcpyWrap_apply {mem : Nat → α} {src : Nat → α} {n off len : Nat}
    (hoff : off < n) (hlen : len ≤ n) {i : Nat} (hi : i < len) :
    memcpyWrap mem n off src len ((off + i) % n) = src i := by
  rw [← wrap_addr hoff (by omega), memcpyWrap, memcpy_apply]
  split
  next hlt =>
    rw [if_neg (by omega), memcpy_apply, if_pos (by omega)]
    congr 1
    omega
  next hge =>
    rw [if_pos (by omega)]
    congr 1
    omega

/-- A two-part copy leaves every other cell alone. -/
theorem memcpyWrap_of_ne {mem : Nat → α} {src : Nat → α} {n off len j : Nat}
    (hoff : off < n) (hlen : len ≤ n)
    (hne : ∀ i, i < len → j ≠ (off + i) % n) :
    memcpyWrap mem n off src len j = mem j := by
  have hne' : ∀ i, i < len →
      j ≠ if i < n - off then off + i else i - (n - off) := fun i hi => by
    rw [wrap_addr hoff (by omega)]
    exact hne i hi
  have h1 : ¬ (0 ≤ j ∧ j < 0 + (len - min len (n - off))) := by
    intro hc
    apply hne' (j + (n - off)) (by omega)
    rw [if_neg (by omega)]
    omega
  have h2 : ¬ (off ≤ j ∧ j < off + min len (n - off)) := by
    intro hc
    apply hne' (j - off) (by omega)
    rw [if_pos (by omega)]
    omega
  rw [memcpyWrap, memcpy_apply, if_neg h1, memcpy_apply, if_neg h2]

-- ============================================================== reading

/-- `n` consecutive elements from address `pos`. -/
def load (mem : Nat → α) (pos n : Nat) : List α :=
  (List.range n).map fun i => mem (pos + i)

/-- The elements in the cells of positions `a, …, a + k - 1` of a ring of
`n` cells. -/
def ringLoad (mem : Nat → α) (n a k : Nat) : List α :=
  (List.range k).map fun i => mem ((a + i) % n)

@[simp] theorem load_length (mem : Nat → α) (pos n : Nat) :
    (load mem pos n).length = n := by
  simp [load]

@[simp] theorem load_getElem (mem : Nat → α) (pos n : Nat) {i : Nat}
    (h : i < (load mem pos n).length) : (load mem pos n)[i] = mem (pos + i) := by
  simp [load]

@[simp] theorem ringLoad_length (mem : Nat → α) (n a k : Nat) :
    (ringLoad mem n a k).length = k := by
  simp [ringLoad]

@[simp] theorem ringLoad_getElem (mem : Nat → α) (n a k : Nat) {i : Nat}
    (h : i < (ringLoad mem n a k).length) :
    (ringLoad mem n a k)[i] = mem ((a + i) % n) := by
  simp [ringLoad]

/-- Reading in two parts at the wrap point reads the positions in order. -/
theorem load_wrap {mem : Nat → α} {n off k : Nat} (hoff : off < n)
    (hk : k ≤ n) :
    load mem off (min k (n - off)) ++ load mem 0 (k - min k (n - off))
      = ringLoad mem n off k := by
  apply List.ext_getElem
  · simp
  · intro i h1 h2
    have hi : i < k := by simpa using h2
    rw [ringLoad_getElem, ← wrap_addr hoff (by omega), List.getElem_append]
    split
    next hlt =>
      simp only [load_length] at hlt
      rw [if_pos (by omega)]
      simp [load]
    next hge =>
      simp only [load_length] at hge
      rw [if_neg (by omega)]
      simp only [load, List.getElem_map, List.getElem_range]
      congr 1
      simp
      omega

/-- A run of positions reads back as the list it holds. -/
theorem ringLoad_eq {mem : Nat → α} {n a : Nat} {xs : List α}
    (h : ∀ i (hi : i < xs.length), mem ((a + i) % n) = xs[i]) :
    ringLoad mem n a xs.length = xs := by
  apply List.ext_getElem
  · simp
  · intro i h1 h2
    rw [ringLoad_getElem, h i h2]

end Circular
