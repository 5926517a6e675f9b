/-
C strings and the numerals the C library reads from their front.

# Strings

A string is the list of its characters up to the terminating zero, a pointer
into it is what is left from there on. `strchr` is the one of the C library
for a character that is not zero.

# Numerals

`scan` reads what `strtoul` and `strtol` read: white space, a sign, what
tells the base where the base is 0 or 16, and the longest string of digits.
The two differ in what they make of it, and in the magnitudes that are out of
range: these give the number next to them, and `errno` is set to `ERANGE`.
Nothing else sets `errno`, and it is never reset.
-/
import Mathlib.Data.List.Basic
import Mathlib.Data.List.TakeWhile
import Mathlib.Algebra.Group.Nat.Defs

namespace CString

-- =============================================================== the search

/-- The string from the first `x` on. -/
def strchr : List Char → Char → Option (List Char)
  | [], _ => none
  | c :: s, x => if c = x then some (c :: s) else strchr s x

theorem strchr_append {a : List Char} {x : Char} (h : x ∉ a) (s : List Char) :
    strchr (a ++ s) x = strchr s x := by
  induction a with
  | nil => rfl
  | cons c a ih =>
      rw [List.mem_cons, not_or] at h
      rw [List.cons_append, strchr, if_neg (Ne.symm h.1), ih h.2]

theorem strchr_self (x : Char) (s : List Char) : strchr (x :: s) x = some (x :: s) := by
  rw [strchr, if_pos rfl]

theorem strchr_none {s : List Char} {x : Char} (h : x ∉ s) : strchr s x = none := by
  have happ := strchr_append h []
  rwa [List.append_nil] at happ

/-- What the search finds, and what it went past. -/
theorem strchr_eq_some {s p : List Char} {x : Char} (h : strchr s x = some p) :
    ∃ a b, s = a ++ x :: b ∧ p = x :: b ∧ x ∉ a := by
  induction s with
  | nil => cases h
  | cons c s ih =>
      rw [strchr] at h
      split at h
      next hc =>
        cases h
        subst hc
        exact ⟨[], s, rfl, rfl, List.not_mem_nil⟩
      next hc =>
        obtain ⟨a, b, rfl, rfl, ha⟩ := ih h
        refine ⟨c :: a, b, rfl, rfl, ?_⟩
        rw [List.mem_cons, not_or]
        exact ⟨Ne.symm hc, ha⟩

/-- A string is cut at its first `x` in one way. -/
theorem append_cons_inj {a a' b b' : List Char} {x : Char} (h : x ∉ a) (h' : x ∉ a')
    (heq : a ++ x :: b = a' ++ x :: b') : a = a' ∧ b = b' := by
  induction a generalizing a' with
  | nil =>
      cases a' with
      | nil => exact ⟨rfl, (List.cons.inj heq).2⟩
      | cons c a' => exact absurd (List.cons.inj heq).1 (List.ne_of_not_mem_cons h')
  | cons c a ih =>
      cases a' with
      | nil => exact absurd (List.cons.inj heq).1.symm (List.ne_of_not_mem_cons h)
      | cons c' a' =>
          obtain ⟨rfl, hrest⟩ := List.cons.inj heq
          obtain ⟨rfl, rfl⟩ := ih (List.not_mem_of_not_mem_cons h)
            (List.not_mem_of_not_mem_cons h') hrest
          exact ⟨rfl, rfl⟩

-- ================================================================ the digits

/-- `isspace` in the C locale. -/
def isSpace (c : Char) : Bool := c.toNat = 32 || (9 ≤ c.toNat && c.toNat ≤ 13)

/-- The digits of the bases up to 36; 36 is none of them. -/
def digitVal (c : Char) : ℕ :=
  if 48 ≤ c.toNat ∧ c.toNat ≤ 57 then c.toNat - 48
  else if 97 ≤ c.toNat ∧ c.toNat ≤ 122 then c.toNat - 87
  else if 65 ≤ c.toNat ∧ c.toNat ≤ 90 then c.toNat - 55
  else 36

def isDigitOf (b : ℕ) (c : Char) : Bool := digitVal c < b

/-- The number a string of digits is. -/
def value (b : ℕ) (ds : List Char) : ℕ := ds.foldl (fun n c => n * b + digitVal c) 0

-- ============================================================== the numerals

/-- A sign, and what is behind it. -/
def sign : List Char → Bool × List Char
  | '-' :: s => (true, s)
  | '+' :: s => (false, s)
  | s => (false, s)

/-- What is behind `0x`, where a digit is. -/
def hexBody : List Char → Option (List Char)
  | '0' :: x :: d :: s => if (x = 'x' || x = 'X') && isDigitOf 16 d then some (d :: s) else none
  | _ => none

theorem hexBody_eq_some {s body : List Char} (h : hexBody s = some body) :
    ∃ x, (x = 'x' ∨ x = 'X') ∧ s = '0' :: x :: body := by
  unfold hexBody at h
  split at h
  next x d s =>
    split at h
    next hx =>
      cases h
      rw [Bool.and_eq_true, Bool.or_eq_true, decide_eq_true_eq, decide_eq_true_eq] at hx
      exact ⟨x, hx.1, rfl⟩
    next => cases h
  next => cases h

/-- The base, and the string of digits with what is behind it. -/
def baseOf (base : ℕ) (s : List Char) : ℕ × List Char :=
  match if base = 0 || base = 16 then hexBody s else none with
  | some s => (16, s)
  | none => (if base = 0 then if s.head? = some '0' then 8 else 10 else base, s)

/-- A numeral at the front of a string. -/
structure Numeral where
  neg : Bool
  mag : ℕ
  rest : List Char
deriving DecidableEq

def scan (base : ℕ) (s : List Char) : Option Numeral :=
  let (neg, s) := sign (s.dropWhile isSpace)
  let (b, s) := baseOf base s
  if (s.takeWhile (isDigitOf b)).isEmpty then none
  else
    some
      { neg := neg, mag := value b (s.takeWhile (isDigitOf b)), rest := s.dropWhile (isDigitOf b) }

/-- What a conversion returns, what it leaves of the string, and whether it
sets `errno` to `ERANGE`. -/
structure Conversion (α : Type) where
  val : α
  rest : List Char
  erange : Bool

def strtoul (s : List Char) (base : ℕ) : Conversion UInt64 :=
  match scan base s with
  | none => { val := 0, rest := s, erange := false }
  | some n =>
      if n.mag < 2 ^ 64 then
        { val := if n.neg then -UInt64.ofNat n.mag else UInt64.ofNat n.mag
          rest := n.rest, erange := false }
      else { val := 0xFFFFFFFFFFFFFFFF, rest := n.rest, erange := true }

def strtol (s : List Char) (base : ℕ) : Conversion Int64 :=
  match scan base s with
  | none => { val := 0, rest := s, erange := false }
  | some n =>
      if n.neg then
        if n.mag ≤ 2 ^ 63 then
          { val := -Int64.ofNat n.mag, rest := n.rest, erange := false }
        else { val := Int64.minValue, rest := n.rest, erange := true }
      else if n.mag < 2 ^ 63 then
        { val := Int64.ofNat n.mag, rest := n.rest, erange := false }
      else { val := Int64.maxValue, rest := n.rest, erange := true }

/-- Without a numeral the whole string is left. -/
theorem conversion_of_none {base : ℕ} {s : List Char} (h : scan base s = none) :
    strtoul s base = { val := 0, rest := s, erange := false }
      ∧ strtol s base = { val := 0, rest := s, erange := false } := by
  simp only [strtoul, strtol, h, and_self]

section Numeral

variable {base : ℕ} {s : List Char} {n : Numeral} (h : scan base s = some n)

include h

theorem strtoul_of_lt (hlt : n.mag < 2 ^ 64) :
    strtoul s base
      = { val := if n.neg then -UInt64.ofNat n.mag else UInt64.ofNat n.mag
          rest := n.rest, erange := false } := by
  simp only [strtoul, h, if_pos hlt]

theorem strtol_of_lt (hneg : n.neg = false) (hlt : n.mag < 2 ^ 63) :
    strtol s base = { val := Int64.ofNat n.mag, rest := n.rest, erange := false } := by
  simp only [strtol, h, hneg, Bool.false_eq_true, if_false, if_pos hlt]

theorem strtol_of_ge (hneg : n.neg = false) (hge : 2 ^ 63 ≤ n.mag) :
    strtol s base = { val := Int64.maxValue, rest := n.rest, erange := true } := by
  simp only [strtol, h, hneg, Bool.false_eq_true, if_false, if_neg (Nat.not_lt.mpr hge)]

/-- A numeral with a minus. -/
theorem strtol_of_neg (hneg : n.neg = true) :
    (strtol s base).rest = n.rest
      ∧ ((strtol s base).erange = true ∨ (strtol s base).val < 0 ∨ (strtol s base).val = 0) := by
  simp only [strtol, h, hneg, if_true]
  split
  next hle =>
    refine ⟨rfl, .inr ?_⟩
    rcases Nat.eq_zero_or_pos n.mag with hzero | hpos
    · right
      simp only [hzero]
      rfl
    · left
      simp only
      rw [Int64.lt_iff_toInt_lt, Int64.toInt_neg_ofNat_of_le hle]
      exact Int.neg_neg_of_pos (Int.natCast_pos.mpr hpos)
  next => exact ⟨rfl, .inl rfl⟩

end Numeral

-- ======================================================== the rest of a string

theorem length_sign_le (s : List Char) : (sign s).2.length ≤ s.length := by
  unfold sign
  split
  · exact Nat.le_succ _
  · exact Nat.le_succ _
  · exact Nat.le_refl _

theorem length_baseOf_le (base : ℕ) (s : List Char) : (baseOf base s).2.length ≤ s.length := by
  unfold baseOf
  split
  next s' h =>
    split at h
    next =>
      obtain ⟨x, -, rfl⟩ := hexBody_eq_some h
      exact Nat.le_add_right _ 2
    next => cases h
  next => exact Nat.le_refl _

/-- A numeral takes at least one character. -/
theorem scan_rest_lt {base : ℕ} {s : List Char} {n : Numeral} (h : scan base s = some n) :
    n.rest.length < s.length := by
  have hspace := (s.dropWhile_sublist isSpace).length_le
  have hsign := length_sign_le (s.dropWhile isSpace)
  have hbase := length_baseOf_le base (sign (s.dropWhile isSpace)).2
  simp only [scan] at h
  split at h
  next => cases h
  next hne =>
    cases h
    rw [List.isEmpty_iff, ← ne_eq, ← List.length_pos_iff] at hne
    have hsplit := congrArg List.length (List.takeWhile_append_dropWhile
      (p := isDigitOf (baseOf base (sign (s.dropWhile isSpace)).2).1)
      (l := (baseOf base (sign (s.dropWhile isSpace)).2).2))
    rw [List.length_append] at hsplit
    simp only
    omega

-- ==================================================== the numerals of programs

theorem isDigit_iff (c : Char) : c.isDigit ↔ 48 ≤ c.toNat ∧ c.toNat ≤ 57 :=
  Char.isDigit_iff_toNat

theorem digitVal_of_isDigit {c : Char} (hc : c.isDigit) : digitVal c = c.toNat - 48 := by
  rw [digitVal, if_pos ((isDigit_iff c).mp hc)]

theorem isDigitOf_ten (c : Char) : isDigitOf 10 c = c.isDigit := by
  rw [Bool.eq_iff_iff, isDigit_iff, isDigitOf, decide_eq_true_eq, digitVal]
  split_ifs <;> omega

theorem value_eq {ds : List Char} (h : ∀ c ∈ ds, c.isDigit) :
    value 10 ds = Nat.ofDigitChars 10 ds 0 := by
  rw [value, Nat.ofDigitChars_eq_foldl]
  apply List.foldl_ext
  intro n c hc
  rw [digitVal_of_isDigit (h c hc), Nat.mul_comm]
  rfl

/-- A string that does not begin with a zero does not tell its base. -/
theorem baseOf_of_ne_zero {c : Char} (hc : c ≠ '0') (base : ℕ) (s : List Char) :
    baseOf base (c :: s) = (if base = 0 then 10 else base, c :: s) := by
  have hhex : hexBody (c :: s) = none := by
    unfold hexBody
    split
    next heq => exact absurd (List.cons.inj heq).1 hc
    next => rfl
  simp [baseOf, hhex, hc]

/-- No white space and no sign are in front of a digit. -/
theorem sign_digit {c : Char} (hc : c.isDigit) (s : List Char) :
    sign ((c :: s).dropWhile isSpace) = (false, c :: s) := by
  rw [isDigit_iff] at hc
  have hspace : isSpace c = false := by
    simp only [isSpace, Bool.or_eq_false_iff, Bool.and_eq_false_iff, decide_eq_false_iff_not]
    omega
  rw [List.dropWhile_cons_of_neg (by rw [hspace]; exact Bool.false_ne_true)]
  unfold sign
  split
  next heq =>
    cases heq
    exact absurd hc.1 (by decide)
  next heq =>
    cases heq
    exact absurd hc.1 (by decide)
  next => rfl

/-- The digits that are in front of something else. -/
theorem span_digits {b : ℕ} {ds rest : List Char} (hds : ∀ c ∈ ds, isDigitOf b c)
    (hrest : ∀ c ∈ rest.head?, ¬ isDigitOf b c) :
    (ds ++ rest).takeWhile (isDigitOf b) = ds ∧ (ds ++ rest).dropWhile (isDigitOf b) = rest := by
  rw [List.takeWhile_append_of_pos hds, List.dropWhile_append_of_pos hds]
  cases rest with
  | nil => simp
  | cons c rest =>
      have hc : ¬ isDigitOf b c := hrest c rfl
      rw [List.takeWhile_cons_of_neg hc, List.dropWhile_cons_of_neg hc, List.append_nil]
      exact ⟨rfl, rfl⟩

theorem scan_decimal {ds rest : List Char} (hne : ds ≠ []) (hds : ∀ c ∈ ds, c.isDigit)
    (hrest : ∀ c ∈ rest.head?, ¬ c.isDigit) :
    scan 10 (ds ++ rest) = some { neg := false, mag := value 10 ds, rest := rest } := by
  obtain ⟨c, ds', rfl⟩ := List.exists_cons_of_ne_nil hne
  have hc : c.isDigit := hds c List.mem_cons_self
  have hbase : baseOf 10 (c :: ds' ++ rest) = (10, c :: ds' ++ rest) := rfl
  obtain ⟨htake, hdrop⟩ := @span_digits 10 (c :: ds') rest
    (fun d hd => by rw [isDigitOf_ten]; exact hds d hd)
    (fun d hd => by rw [isDigitOf_ten]; exact hrest d hd)
  simp only [scan]
  rw [List.cons_append, sign_digit hc, ← List.cons_append]
  simp only [hbase, htake, hdrop]
  rfl

/-- The first digit of a number other than zero. -/
theorem head_toDigits {n : ℕ} (hn : 0 < n) : (Nat.toDigits 10 n).head? ≠ some '0' := by
  induction n using Nat.strongRecOn with
  | ind n ih =>
      rcases Nat.lt_or_ge n 10 with hlt | hge
      · rw [Nat.toDigits_of_lt_base hlt]
        intro h
        have hzero := Nat.toNat_digitChar_sub_48_of_lt_ten hlt
        rw [Option.some.inj h] at hzero
        exact absurd hzero.symm (Nat.pos_iff_ne_zero.mp hn)
      · have hhead := ih (n / 10) (by omega) (by omega)
        obtain ⟨c, ds, hcons⟩ := List.exists_cons_of_ne_nil (@Nat.toDigits_ne_nil (n / 10) 10)
        rw [Nat.toDigits_of_base_le (by decide) hge, hcons]
        rwa [hcons] at hhead

/-- A number in decimal is read back where the string tells the base. -/
theorem scan_toDigits (n : ℕ) :
    scan 0 (Nat.toDigits 10 n) = some { neg := false, mag := n, rest := [] } := by
  rcases Nat.eq_zero_or_pos n with rfl | hn
  · decide
  · have hdigits : ∀ c ∈ Nat.toDigits 10 n, c.isDigit := fun c hc =>
      Nat.isDigit_of_mem_toDigits (by decide) (by decide) hc
    have hval : value 10 (Nat.toDigits 10 n) = n := by
      rw [value_eq hdigits, Nat.ofDigitChars_ten_toDigits]
    have hhead := head_toDigits hn
    obtain ⟨c, ds, hcons⟩ := List.exists_cons_of_ne_nil (@Nat.toDigits_ne_nil n 10)
    rw [hcons] at hdigits hval hhead
    have hc : c ≠ '0' := fun h => hhead (congrArg some h)
    have hbase : baseOf 0 (c :: ds) = (10, c :: ds) := baseOf_of_ne_zero hc 0 ds
    obtain ⟨htake, hdrop⟩ := @span_digits 10 (c :: ds) []
      (fun d hd => by rw [isDigitOf_ten]; exact hdigits d hd) (fun d hd => by cases hd)
    rw [List.append_nil] at htake hdrop
    rw [hcons]
    simp only [scan]
    rw [sign_digit (hdigits c List.mem_cons_self)]
    simp only [hbase, htake, hdrop, hval]
    rfl

/-- No numeral begins with a character that is no digit of any base. -/
theorem scan_of_not_digit {base : ℕ} {c : Char} {s : List Char} (hspace : ¬ isSpace c)
    (hsign : sign (c :: s) = (false, c :: s)) (hdigit : digitVal c = 36) (hbase : base ≤ 36) :
    scan base (c :: s) = none := by
  have hc : c ≠ '0' := by
    rintro rfl
    exact absurd hdigit (by decide)
  have hnone : ¬ isDigitOf (if base = 0 then 10 else base) c := by
    rw [isDigitOf, hdigit, decide_eq_true_eq]
    split_ifs <;> omega
  simp only [scan]
  rw [List.dropWhile_cons_of_neg hspace, hsign]
  simp only [baseOf_of_ne_zero hc]
  rw [List.takeWhile_cons_of_neg hnone]
  rfl

/-- A numeral that is a whole string, with no white space and no sign, has
nothing but digits and letters in it. -/
theorem digitVal_of_scan {c : Char} (hc : c.isDigit) {s : List Char} {n : Numeral}
    (h : scan 0 (c :: s) = some n) (hrest : n.rest = []) :
    ∀ d ∈ c :: s, digitVal d ≠ 36 := by
  -- what is left is nothing, so every character is a digit of the base
  have hall : ∀ {b : ℕ} {t : List Char}, b ≤ 36 → t.dropWhile (isDigitOf b) = [] →
      ∀ d ∈ t, digitVal d ≠ 36 := by
    intro b t hb hnil d hd
    have hlt := of_decide_eq_true (List.dropWhile_eq_nil_iff.mp hnil d hd)
    omega
  simp only [scan] at h
  rw [sign_digit hc] at h
  simp only at h
  split at h
  next => cases h
  next =>
    cases h
    simp only at hrest
    unfold baseOf at hrest
    split at hrest
    next body hhex =>
      have hbody := hall (show 16 ≤ 36 by decide) hrest
      obtain ⟨x, hx, heq⟩ := hexBody_eq_some (show hexBody (c :: s) = some body by simpa using hhex)
      rw [heq, List.forall_mem_cons, List.forall_mem_cons]
      refine ⟨by decide, ?_, hbody⟩
      rcases hx with rfl | rfl
      · decide
      · decide
    next =>
      simp only at hrest
      apply hall _ hrest
      split_ifs <;> decide

end CString
