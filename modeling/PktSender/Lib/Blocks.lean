/-
Files of fixed-size records, written one after the other and read back with
`fread` until it returns no record.

# The format

A `Codec` lays a value out as a fixed number of units and reads it back. Some
of the units belong to no part of the value (a C structure has gaps): they
are laid out from a second value, of the type `γ`, that reading forgets.

# Rules

What was written is read back, also from a file that ends in the middle of a
record (`readAll_append`); so a file that was cut anywhere reads like the
records in front of the cut (`readAll_take`).
-/
import Mathlib.Data.List.TakeDrop
import Mathlib.Data.List.Flatten

namespace Blocks

/-- How values of `α` are laid out in units of `β`, with gaps from `γ`. -/
structure Codec (α β γ : Type*) where
  size : ℕ
  encode : γ → α → List β
  decode : List β → α
  size_pos : 0 < size
  length_encode : ∀ gap a, (encode gap a).length = size
  decode_encode : ∀ gap a, decode (encode gap a) = a

variable {α β γ σ : Type*} (c : Codec α β γ)

namespace Codec

/-- One value off the front, and what is behind it. -/
def read (bs : List β) : Option (α × List β) :=
  if bs.length < c.size then none else some (c.decode (bs.take c.size), bs.drop c.size)

variable {c}

theorem read_eq_some {bs rest : List β} {a : α} (h : c.read bs = some (a, rest)) :
    rest.length + c.size = bs.length := by
  unfold read at h
  split at h
  case isTrue => cases h
  case isFalse hle =>
    cases h
    rw [List.length_drop]
    omega

theorem length_read_lt {bs rest : List β} {a : α} (h : c.read bs = some (a, rest)) :
    rest.length < bs.length := by
  have hlen := read_eq_some h
  have hpos := c.size_pos
  omega

variable (c)

/-- Read values until there is none. -/
def readAll (bs : List β) : List α :=
  match _ : c.read bs with
  | none => []
  | some (a, rest) => a :: readAll rest
termination_by bs.length
decreasing_by exact length_read_lt ‹_›

/-- Write values with their gaps. -/
def writeAll (xs : List (γ × α)) : List β := xs.flatMap fun x => c.encode x.1 x.2

variable {c}

theorem readAll_of_none {bs : List β} (h : c.read bs = none) : c.readAll bs = [] := by
  rw [readAll]
  split
  next => rfl
  next a rest hsome =>
    rw [h] at hsome
    cases hsome

theorem readAll_of_some {bs rest : List β} {a : α} (h : c.read bs = some (a, rest)) :
    c.readAll bs = a :: c.readAll rest := by
  rw [readAll]
  split
  next hnone =>
    rw [h] at hnone
    cases hnone
  next a' rest' hsome =>
    rw [h] at hsome
    cases hsome
    rfl

/-- What is shorter than a record is none. -/
theorem readAll_short {bs : List β} (h : bs.length < c.size) : c.readAll bs = [] :=
  readAll_of_none (if_pos h)

theorem read_encode_append (gap : γ) (a : α) (bs : List β) :
    c.read (c.encode gap a ++ bs) = some (a, bs) := by
  have hlen := c.length_encode gap a
  have htake : (c.encode gap a ++ bs).take c.size = c.encode gap a :=
    List.take_left' hlen
  have hdrop : (c.encode gap a ++ bs).drop c.size = bs :=
    List.drop_left' hlen
  unfold read
  rw [if_neg (by rw [List.length_append, hlen]; omega), htake, hdrop, c.decode_encode]

@[simp] theorem writeAll_nil : c.writeAll [] = [] := rfl

theorem writeAll_cons (x : γ × α) (xs : List (γ × α)) :
    c.writeAll (x :: xs) = c.encode x.1 x.2 ++ c.writeAll xs := rfl

theorem writeAll_append (xs ys : List (γ × α)) :
    c.writeAll (xs ++ ys) = c.writeAll xs ++ c.writeAll ys := List.flatMap_append

/-- Records and the beginning of one more: the records are read. -/
theorem readAll_append (xs : List (γ × α)) {torn : List β} (h : torn.length < c.size) :
    c.readAll (c.writeAll xs ++ torn) = xs.map Prod.snd := by
  induction xs with
  | nil => exact readAll_short h
  | cons x xs ih =>
      rw [writeAll_cons, List.append_assoc, readAll_of_some (read_encode_append _ _ _), ih,
        List.map_cons]

/-- The first units of a file: its whole records and the beginning of one. -/
theorem take_writeAll (xs : List (γ × α)) (k : ℕ) :
    ∃ torn : List β, torn.length < c.size
      ∧ (c.writeAll xs).take k = c.writeAll (xs.take (k / c.size)) ++ torn := by
  induction xs generalizing k with
  | nil => exact ⟨[], c.size_pos, by simp⟩
  | cons x xs ih =>
      have hlen := c.length_encode x.1 x.2
      rcases Nat.lt_or_ge k c.size with hshort | hlong
      · -- the cut is in the first record
        refine ⟨(c.encode x.1 x.2).take k, ?_, ?_⟩
        · rw [List.length_take, hlen]
          omega
        · rw [Nat.div_eq_of_lt hshort, writeAll_cons, List.take_append_of_le_length (by omega)]
          rfl
      · obtain ⟨torn, htorn, htake⟩ := ih (k - c.size)
        refine ⟨torn, htorn, ?_⟩
        have hdiv : k / c.size = (k - c.size) / c.size + 1 :=
          Nat.div_eq_sub_div c.size_pos hlong
        rw [hdiv, List.take_succ_cons, writeAll_cons, writeAll_cons, List.append_assoc, ← htake,
          List.take_append, hlen, List.take_of_length_le (by omega)]

/-- A file that was cut reads like its records in front of the cut. -/
theorem readAll_take (xs : List (γ × α)) (k : ℕ) :
    c.readAll ((c.writeAll xs).take k) = (xs.map Prod.snd).take (k / c.size) := by
  obtain ⟨torn, htorn, htake⟩ := take_writeAll (c := c) xs k
  rw [htake, readAll_append _ htorn, List.map_take]

/-- A loop that reads a record and goes on is one over all of them. -/
theorem foldlM_readAll (f : σ → α → Option σ) (loop : σ → List β → Option σ)
    (hnone : ∀ s bs, c.read bs = none → loop s bs = some s)
    (hsome : ∀ s bs a rest, c.read bs = some (a, rest) →
      loop s bs = (f s a).bind fun s => loop s rest) (s : σ) (bs : List β) :
    loop s bs = (c.readAll bs).foldlM f s := by
  induction bs using readAll.induct c generalizing s with
  | case1 bs hread =>
      rw [hnone s bs hread, readAll_of_none hread]
      rfl
  | case2 bs a rest hread ih =>
      rw [hsome s bs a rest hread, readAll_of_some hread, List.foldlM_cons]
      exact congrArg _ (funext ih)

/-- Values side by side in memory, byte by byte. -/
theorem map_range_encode (gaps : ℕ → γ) (xs : ℕ → α) (junk : β) (n : ℕ) :
    (List.range (c.size * n)).map (fun i =>
        (c.encode (gaps (i / c.size)) (xs (i / c.size))).getD (i % c.size) junk)
      = c.writeAll ((List.range n).map fun i => (gaps i, xs i)) := by
  induction n with
  | zero => rfl
  | succ n ih =>
      have hlen := c.length_encode (gaps n) (xs n)
      have hlast : (List.range c.size).map (fun i =>
            (c.encode (gaps ((c.size * n + i) / c.size)) (xs ((c.size * n + i) / c.size))).getD
              ((c.size * n + i) % c.size) junk)
          = c.encode (gaps n) (xs n) := by
        refine List.ext_getElem (by rw [List.length_map, List.length_range, hlen]) ?_
        intro i hi hi'
        have hlt : i < c.size := hlen ▸ hi'
        have hdiv : (c.size * n + i) / c.size = n := by
          rw [Nat.mul_add_div c.size_pos, Nat.div_eq_of_lt hlt, Nat.add_zero]
        have hmod : (c.size * n + i) % c.size = i := by
          rw [Nat.mul_add_mod, Nat.mod_eq_of_lt hlt]
        rw [List.getElem_map, List.getElem_range, hdiv, hmod, List.getD_eq_getElem?_getD,
          List.getElem?_eq_getElem hi', Option.getD_some]
      rw [Nat.mul_succ, List.range_add, List.map_append, ih, List.map_map, List.range_succ,
        List.map_append, writeAll_append]
      congr 1
      rw [List.map_singleton, writeAll_cons, writeAll_nil, List.append_nil]
      exact hlast

end Codec

end Blocks
