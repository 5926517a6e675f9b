/-
The rates `__parse_rate` returns.

A number that is in the range of a long is shifted by what its suffix says,
and what is shifted out of 64 bits is lost (`parseRate_eq`). So a rate is as
documented while nothing is lost, or where everything is, for which 0 is
returned as it is for failures; with `g` the shift is that of the next suffix
(`scaled_iff`).
-/
import PktSender.Options.Basic

namespace PktSender.Options

open CString (scan strtol value)

variable {str : Arg} {errno : Int}

-- ================================================================ the shifts

/-- What the suffix shifts by. -/
def shiftOf (rest : Arg) : ℕ :=
  match rest.head? with
  | some 'k' | some 'K' => 10
  | some 'm' | some 'M' => 20
  | some 'g' | some 'G' => 40
  | _ => 0

/-- The values of `errno` that are looked for. -/
def RateErrno (errno : Int) : Prop := errno = einval ∨ errno = erange

instance : DecidablePred RateErrno := fun errno =>
  inferInstanceAs (Decidable (errno = einval ∨ errno = erange))

/-- The rate of a numeral at the front of a string. -/
def rateOf (n : CString.Numeral) : ℕ :=
  if n.neg = true ∨ 2 ^ 63 ≤ n.mag then 0 else n.mag * 2 ^ shiftOf n.rest % 2 ^ 64

theorem toNat_shiftLeft (m : ℕ) :
    (Int64.ofNat m <<< 10).toUInt64.toNat = m * 2 ^ 10 % 2 ^ 64
      ∧ (Int64.ofNat m <<< 20).toUInt64.toNat = m * 2 ^ 20 % 2 ^ 64
      ∧ (Int64.ofNat m <<< 40).toUInt64.toNat = m * 2 ^ 40 % 2 ^ 64 := by
  refine ⟨?_, ?_, ?_⟩
  · show ((BitVec.ofNat 64 m) <<< (10 : ℕ)).toNat = _
    simp [BitVec.toNat_shiftLeft, Nat.shiftLeft_eq]
  · show ((BitVec.ofNat 64 m) <<< (20 : ℕ)).toNat = _
    simp [BitVec.toNat_shiftLeft, Nat.shiftLeft_eq]
  · show ((BitVec.ofNat 64 m) <<< (40 : ℕ)).toNat = _
    simp [BitVec.toNat_shiftLeft, Nat.shiftLeft_eq]

/-- The unit shifts, and what is shifted out is lost. -/
theorem toNat_switchUnit (unit : Arg) (m : ℕ) :
    (switchUnit unit (Int64.ofNat m)).toNat = m * 2 ^ shiftOf unit % 2 ^ 64 := by
  obtain ⟨hk, hm, hg⟩ := toNat_shiftLeft m
  unfold switchUnit shiftOf
  generalize unit.head? = c
  split
  · exact hk
  · exact hk
  · exact hm
  · exact hm
  · exact hg
  · exact hg
  · simp

theorem parseRate_none (h : scan 10 str = none) : (parseRate str errno).1 = 0 := by
  simp [parseRate, (CString.conversion_of_none h).2]

/-- The tests in front of the `switch`. -/
theorem parseRate_eq {r : CString.Conversion Int64} (hconv : strtol str 10 = r)
    (hfound : r.rest.length ≠ str.length) :
    (parseRate str errno).1
      = if RateErrno errno ∨ r.erange = true ∨ r.val < 0 then 0 else switchUnit r.rest r.val := by
  have hafter : RateErrno (errnoAfter errno r) ↔ RateErrno errno ∨ r.erange = true := by
    unfold errnoAfter
    cases hrange : r.erange with
    | false => simp
    | true => simp [RateErrno]
  simp only [parseRate, hconv, Bool.or_eq_true, decide_eq_true_eq, hfound, or_false]
  change (if RateErrno (errnoAfter errno r) then _ else _ : UInt64 × Int).1 = _
  by_cases herrno : RateErrno (errnoAfter errno r)
  · rw [if_pos herrno, if_pos]
    rcases hafter.mp herrno with hold | hrange
    · exact .inl hold
    · exact .inr (.inl hrange)
  · rw [if_neg herrno]
    rw [hafter, not_or] at herrno
    by_cases hneg : r.val < 0
    · rw [if_pos hneg, if_pos (.inr (.inr hneg))]
    · rw [if_neg hneg, if_neg]
      rintro (hold | hrange | hlt)
      · exact herrno.1 hold
      · exact herrno.2 hrange
      · exact hneg hlt

/-- With a numeral in front the result is its rate, unless `errno` says otherwise. -/
theorem parseRate_some {n : CString.Numeral} (h : scan 10 str = some n) :
    (parseRate str errno).1.toNat = if RateErrno errno then 0 else rateOf n := by
  have hlen : n.rest.length ≠ str.length := (CString.scan_rest_lt h).ne
  cases hneg : n.neg with
  | true =>
      obtain ⟨hrest, hval⟩ := CString.strtol_of_neg h hneg
      have hrate : rateOf n = 0 := if_pos (.inl hneg)
      rw [hrate, ite_self, parseRate_eq rfl (by rw [hrest]; exact hlen)]
      split
      next => rfl
      next hgo =>
        -- minus zero
        have hzero : (strtol str 10).val = Int64.ofNat 0 := by
          rcases hval with hrange | hlt | hzero
          · exact absurd (.inr (.inl hrange)) hgo
          · exact absurd (.inr (.inr hlt)) hgo
          · exact hzero
        rw [hzero, toNat_switchUnit, Nat.zero_mul, Nat.zero_mod]
  | false =>
      rcases Nat.lt_or_ge n.mag (2 ^ 63) with hlt | hge
      · have hnonneg : ¬ Int64.ofNat n.mag < 0 := by
          rw [Int64.lt_iff_toInt_lt, Int64.toInt_ofNat_of_lt hlt]
          exact not_lt_of_ge (Int.natCast_nonneg _)
        rw [parseRate_eq (CString.strtol_of_lt h hneg hlt) hlen]
        by_cases herrno : RateErrno errno
        · rw [if_pos (.inl herrno), if_pos herrno]
          rfl
        · have hrate : rateOf n = n.mag * 2 ^ shiftOf n.rest % 2 ^ 64 := by
            apply if_neg
            rw [hneg]
            exact not_or.mpr ⟨Bool.false_ne_true, Nat.not_le.mpr hlt⟩
          rw [if_neg herrno, hrate, ← toNat_switchUnit, if_neg]
          rintro (hold | hrange | hlt)
          · exact herrno hold
          · exact Bool.false_ne_true hrange
          · exact hnonneg hlt
      · have hrate : rateOf n = 0 := if_pos (.inr hge)
        rw [hrate, ite_self, parseRate_eq (CString.strtol_of_ge h hneg hge) hlen,
          if_pos (.inr (.inl rfl))]
        rfl

-- ================================================================= the scale

/-- What may be behind the number. -/
inductive RateUnit where
  | bps
  | kbps
  | mbps
  | gbps
deriving DecidableEq

def RateUnit.texts : RateUnit → List Arg
  | .bps => [[]]
  | .kbps => [['k'], ['K']]
  | .mbps => [['m'], ['M']]
  | .gbps => [['g'], ['G']]

/-- The power of 1024. -/
def RateUnit.exponent : RateUnit → ℕ
  | .bps => 0
  | .kbps => 1
  | .mbps => 2
  | .gbps => 3

/-- The rate, or 0 where it does not fit 64 bits. -/
def documentedRate (n : ℕ) (u : RateUnit) : ℕ :=
  if n * 1024 ^ u.exponent < 2 ^ 64 then n * 1024 ^ u.exponent else 0

/-- The numbers of which no bit is lost, or every bit; with `g`, those of which
every bit is lost and is to be. -/
def RateUnit.Exact (n : ℕ) : RateUnit → Prop
  | .bps => True
  | .kbps => n < 2 ^ 54 ∨ 2 ^ 54 ∣ n
  | .mbps => n < 2 ^ 44 ∨ 2 ^ 44 ∣ n
  | .gbps => n = 0 ∨ (2 ^ 34 ≤ n ∧ 2 ^ 24 ∣ n)

/-- What the code shifts by. -/
def RateUnit.shift : RateUnit → ℕ
  | .bps => 0
  | .kbps => 10
  | .mbps => 20
  | .gbps => 40

theorem shiftOf_texts {u : RateUnit} {suffix : Arg} (h : suffix ∈ u.texts) :
    shiftOf suffix = u.shift ∧ ∀ c ∈ suffix.head?, ¬ c.isDigit := by
  cases u with
  | bps =>
      rcases List.mem_singleton.mp h with rfl
      exact ⟨rfl, fun c hc => by cases hc⟩
  | kbps =>
      rcases List.mem_pair.mp h with rfl | rfl
      · exact ⟨rfl, fun c hc => by cases hc; decide⟩
      · exact ⟨rfl, fun c hc => by cases hc; decide⟩
  | mbps =>
      rcases List.mem_pair.mp h with rfl | rfl
      · exact ⟨rfl, fun c hc => by cases hc; decide⟩
      · exact ⟨rfl, fun c hc => by cases hc; decide⟩
  | gbps =>
      rcases List.mem_pair.mp h with rfl | rfl
      · exact ⟨rfl, fun c hc => by cases hc; decide⟩
      · exact ⟨rfl, fun c hc => by cases hc; decide⟩

/-- The shift is the documented factor where nothing is lost. -/
theorem exact_iff {n : ℕ} (hn : n < 2 ^ 63) (u : RateUnit) :
    n * 2 ^ u.shift % 2 ^ 64 = documentedRate n u ↔ u.Exact n := by
  cases u with
  | bps =>
      show (n * 1 % 2 ^ 64 = if n * 1 < 2 ^ 64 then n * 1 else 0) ↔ True
      rw [iff_true]
      split <;> omega
  | kbps =>
      show (n * 2 ^ 10 % 2 ^ 64 = if n * 2 ^ 10 < 2 ^ 64 then n * 2 ^ 10 else 0)
        ↔ n < 2 ^ 54 ∨ 2 ^ 54 ∣ n
      split <;> omega
  | mbps =>
      show (n * 2 ^ 20 % 2 ^ 64 = if n * 2 ^ 20 < 2 ^ 64 then n * 2 ^ 20 else 0)
        ↔ n < 2 ^ 44 ∨ 2 ^ 44 ∣ n
      split <;> omega
  | gbps =>
      show (n * 2 ^ 40 % 2 ^ 64 = if n * 2 ^ 30 < 2 ^ 64 then n * 2 ^ 30 else 0)
        ↔ n = 0 ∨ (2 ^ 34 ≤ n ∧ 2 ^ 24 ∣ n)
      -- the low 30 bits are zero on both sides
      have hlow : n * 2 ^ 40 % 2 ^ 64 = 2 ^ 30 * (n * 1024 % 2 ^ 34) := by
        rw [show n * 2 ^ 40 = 2 ^ 30 * (n * 1024) by omega, show 2 ^ 64 = 2 ^ 30 * 2 ^ 34 from rfl,
          Nat.mul_mod_mul_left]
      rw [hlow]
      split
      next hlt =>
        have hsmall : n < 2 ^ 34 := by omega
        rw [Nat.mul_comm n (2 ^ 30), Nat.mul_right_inj (by decide)]
        omega
      next hge =>
        rw [Nat.mul_eq_zero, or_iff_right (by decide)]
        omega

/-- The rate of a decimal numeral with a unit is the documented one. -/
theorem parseRate_exact_iff {ds suffix : Arg} {u : RateUnit} (hne : ds ≠ [])
    (hds : ∀ c ∈ ds, c.isDigit) (hmax : value 10 ds < 2 ^ 63) (hsuffix : suffix ∈ u.texts) :
    (parseRate (ds ++ suffix) 0).1.toNat = documentedRate (value 10 ds) u
      ↔ u.Exact (value 10 ds) := by
  obtain ⟨hshift, hhead⟩ := shiftOf_texts hsuffix
  have hzero : ¬ RateErrno 0 := by decide
  have hrate : rateOf { neg := false, mag := value 10 ds, rest := suffix }
      = value 10 ds * 2 ^ u.shift % 2 ^ 64 := by
    rw [← hshift]
    exact if_neg (not_or.mpr ⟨Bool.false_ne_true, Nat.not_le.mpr hmax⟩)
  rw [parseRate_some (CString.scan_decimal hne hds hhead), if_neg hzero, hrate]
  exact exact_iff hmax u

/-- 100m is 100 times 2 ^ 20. -/
theorem parseRate_exact_iff_hundred :
    (parseRate ['1', '0', '0', 'm'] 0).1.toNat = documentedRate 100 .mbps
      ↔ RateUnit.Exact 100 .mbps :=
  @parseRate_exact_iff ['1', '0', '0'] ['m'] .mbps (by decide) (List.all_eq_true.mp (by decide))
    (by decide) List.mem_cons_self

/-- 1g is a thousand times 2 ^ 30. -/
theorem parseRate_one_g :
    (parseRate ['1', 'g'] 0).1.toNat ≠ documentedRate 1 .gbps
      ∧ (parseRate ['1', 'g'] 0).1.toNat = 2 ^ 40 := by
  decide +kernel

end PktSender.Options
