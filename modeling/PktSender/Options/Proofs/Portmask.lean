/-
The error of `__parse_portmask`.

It is -1 in a `uint8_t`, so `__parse_args` gets 255, which is not negative:
whatever the argument of `-p` is, the loop goes on (`parseArgs_p`).
-/
import PktSender.Options.Proofs.Config

namespace PktSender.Options

open CString (scan strtoul)

variable {rteStrsplit : Arg → ℕ → ℕ → Char → List Arg}

/-- A hexadecimal number as `strtoul` takes it, in the whole string. -/
def HexNumber (str : Arg) (v : UInt64) : Prop :=
  ∃ n, scan 16 str = some n ∧ n.rest = [] ∧ n.mag < 2 ^ 64
    ∧ v = if n.neg then -UInt64.ofNat n.mag else UInt64.ofNat n.mag

/-- The option `-p` with this argument, after any options and before any: a
malformed one ends the program, any other sets `portmask`. -/
def RefusesMalformed (rteStrsplit : Arg → ℕ → ℕ → Char → List Arg) (str : Arg) : Prop :=
  ∀ (optind : Int) (rest : List Opt) (s : State),
    ((∀ v, ¬ HexNumber str v) →
      ∃ s', parseArgs rteStrsplit optind (.p str :: rest) s = some (s', -1))
    ∧ ∀ v, HexNumber str v →
      parseArgs rteStrsplit optind (.p str :: rest) s
        = parseArgs rteStrsplit optind rest { s with portmask := v }

theorem parseArgs_p (optind : Int) (str : Arg) (rest : List Opt) (s : State) :
    parseArgs rteStrsplit optind (.p str :: rest) s
      = parseArgs rteStrsplit optind rest (parsePortmask str s).1 := by
  rw [parseArgs]
  exact if_neg (Int.not_lt.mpr (Int.natCast_nonneg _))

/-- `portmask` is written whatever the string is. -/
theorem parsePortmask_state (str : Arg) (s : State) :
    (parsePortmask str s).1
      = { s with
          portmask := (strtoul str 16).val
          errno := errnoAfter s.errno (strtoul str 16) } := by
  simp only [parsePortmask]
  split
  next => rfl
  next =>
    split
    next => rfl
    next => rfl

theorem parsePortmask_hexNumber {str : Arg} {v : UInt64} (h : HexNumber str v) (s : State) :
    (parsePortmask str s).1 = { s with portmask := v } := by
  obtain ⟨n, hscan, hrest, hlt, rfl⟩ := h
  rw [parsePortmask_state, CString.strtoul_of_lt hscan hlt]
  rfl

/-- As the last option, a malformed argument is an argument like any other. -/
theorem not_refusesMalformed {str : Arg} (hbad : ∀ v, ¬ HexNumber str v) :
    ¬ RefusesMalformed rteStrsplit str := by
  intro h
  obtain ⟨s', hrun⟩ := (h 1 [] .start).1 hbad
  rw [parseArgs_p, parseArgs] at hrun
  obtain ⟨-, hret⟩ := Prod.mk.inj (Option.some.inj hrun)
  exact absurd hret (by decide)

/-- The arguments of `-p` that are treated as they are to be are those that are
not malformed. -/
theorem refusesMalformed_iff (str : Arg) :
    RefusesMalformed rteStrsplit str ↔ ∃ v, HexNumber str v := by
  refine ⟨?_, ?_⟩
  · intro h
    by_contra hbad
    exact not_refusesMalformed (not_exists.mp hbad) h
  · rintro ⟨v, hv⟩ optind rest s
    refine ⟨fun hbad => absurd hv (hbad v), fun w hw => ?_⟩
    rw [parseArgs_p, parsePortmask_hexNumber hw]

/-- 3x. -/
theorem not_refused : ¬ RefusesMalformed (fun str _ n delim => tokens delim n str) ['3', 'x'] := by
  have hscan : scan 16 ['3', 'x'] = some { neg := false, mag := 3, rest := ['x'] } := by decide
  apply not_refusesMalformed
  rintro v ⟨n, hn, hrest, -⟩
  rw [hscan] at hn
  cases hn
  cases hrest

end PktSender.Options
