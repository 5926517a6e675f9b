/-
What the parsers make of the `errno` they find.

None of them resets it, so an error that was left behind by an earlier call
fails the first number of a configuration (`parseConfig_stops`), every number
of `str_to_uint8`, and the rates when it is one of two values. Two values
give the same result where both are such an error or neither is, and where
the string fails in any case: for a configuration, before its first number was
written to the array (`ReadsNumber`).
-/
import PktSender.Options.Proofs.Config
import PktSender.Options.Proofs.Rate

namespace PktSender.Options

open CString (scan)
open Mapping (LcoreParams maxLcoreParams)

variable {rteStrsplit : Arg → ℕ → ℕ → Char → List Arg} {s : State} {str : Arg} {e e' : Int}

-- ================================================================ the numbers

theorem strToUint8_same_iff :
    (strToUint8 str e).1 = (strToUint8 str e').1
      ↔ (e = 0 ↔ e' = 0) ∨ ∀ v, ¬ Begins str v := by
  have hfails : ∀ d, (d = 0 → ∀ v, ¬ Begins str v) → (strToUint8 str d).1 = none :=
    fun d h => strToUint8_fails h
  by_cases hnum : ∃ v, Begins str v
  case neg =>
    have hnone : ∀ v, ¬ Begins str v := fun v hv => hnum ⟨v, hv⟩
    rw [hfails e fun _ => hnone, hfails e' fun _ => hnone]
    exact iff_of_true rfl (.inr hnone)
  case pos =>
    obtain ⟨v, hv⟩ := hnum
    have hsome : (strToUint8 str 0).1 = some v := by rw [strToUint8_of_begins hv]
    rw [or_iff_left fun hnone => hnone v hv]
    by_cases h : e = 0
    · by_cases h' : e' = 0
      · rw [h, h']
        exact iff_of_true rfl Iff.rfl
      · rw [h, hsome, hfails e' fun hz => absurd hz h']
        simp [h']
    · by_cases h' : e' = 0
      · rw [h', hsome, hfails e fun hz => absurd hz h]
        simp [h]
      · rw [hfails e fun hz => absurd hz h, hfails e' fun hz => absurd hz h']
        simp [h, h']

-- ================================================================== the rates

/-- A string that stands for a rate other than zero. -/
def ReadsRate (str : Arg) : Prop := ∃ n, scan 10 str = some n ∧ rateOf n ≠ 0

theorem parseRate_same_iff :
    (parseRate str e).1 = (parseRate str e').1
      ↔ (RateErrno e ↔ RateErrno e') ∨ ¬ ReadsRate str := by
  cases hscan : scan 10 str with
  | none =>
      rw [parseRate_none hscan, parseRate_none hscan]
      refine iff_of_true rfl (.inr ?_)
      rintro ⟨n, hn, -⟩
      rw [hscan] at hn
      cases hn
  | some n =>
      have hreads : ReadsRate str ↔ rateOf n ≠ 0 := by
        unfold ReadsRate
        rw [hscan]
        simp
      rw [← UInt64.toNat_inj, parseRate_some hscan, parseRate_some hscan, hreads, not_not]
      by_cases h : RateErrno e
      · by_cases h' : RateErrno e'
        · simp [h, h']
        · simp [h, h', eq_comm]
      · by_cases h' : RateErrno e'
        · simp [h, h']
        · simp [h, h']

-- ========================================================== the configurations

/-- A result but for `errno`. -/
def forget (r : Option (State × Int)) : Option (State × Int) :=
  r.map fun r => ({ r.1 with errno := 0 }, r.2)

/-- The first group is closed and short, it is split in three and the first
field begins with a number. -/
def ReadsNumber (rteStrsplit : Arg → ℕ → ℕ → Char → List Arg) (str : Arg) : Prop :=
  ∃ (p : Piece) (rest : Arg), str = p.text rest ∧ p.body.length % 2 ^ 32 < sizeofS
    ∧ ∃ port job lcore v, rteStrsplit (copied p.body) sizeofS numFld ',' = [port, job, lcore]
      ∧ Begins port v

/-- A group whose first number is not read. -/
theorem parseGroup_stops {p : Piece} {rest : Arg}
    (h : s.errno ≠ 0 ∨ ¬ ReadsNumber rteStrsplit (p.text rest)) (rest' : Arg) :
    ∃ d, parseGroup rteStrsplit (p.body ++ rest') p.body.length s
      = some ({ s with errno := d }, false) := by
  rw [parseGroup_eq]
  split
  case isTrue => exact ⟨s.errno, rfl⟩
  case isFalse hshort =>
    rcases parseTokens_cases (rteStrsplit (copied p.body) sizeofS numFld ',') s with
      ⟨port, job, lcore, htoks, hfields⟩ | hother
    case inr => exact ⟨s.errno, hother⟩
    case inl =>
      have hfail : (strToUint8 port s.errno).1 = none := by
        apply strToUint8_fails
        intro herrno v hv
        rcases h with hne | hnot
        · exact hne herrno
        · exact hnot ⟨p, rest, rfl, Nat.not_le.mp hshort, port, job, lcore, v, htoks, hv⟩
      refine ⟨(strToUint8 port s.errno).2, ?_⟩
      rw [hfields]
      simp only [parseFields, hfail]

/-- The result when no number is read. -/
theorem parseConfig_stops (h : e ≠ 0 ∨ ¬ ReadsNumber rteStrsplit str) :
    forget (parseConfig rteStrsplit str { s with errno := e })
      = if '(' ∈ str then some ({ s with nbLcoreParams := 0, errno := 0 }, -1)
        else some ({ s with nbLcoreParams := 0, lcoreParams := true, errno := 0 }, 0) := by
  obtain ⟨ps, t, rfl⟩ := exists_cut str
  rw [parseConfig]
  cases ps with
  | nil =>
      rw [parseConfigLoop_nil]
      split
      next hopen =>
        rw [if_pos (show '(' ∈ cutText [] t from hopen)]
        rfl
      next hclosed =>
        rw [if_neg (show '(' ∉ cutText [] t from hclosed)]
        rfl
  | cons p ps =>
      have hopen : '(' ∈ cutText (p :: ps) t := List.mem_append_right p.gap List.mem_cons_self
      obtain ⟨d, hgroup⟩ := @parseGroup_stops _
        { s with errno := e, nbLcoreParams := 0 } p (cutText ps t) h (')' :: cutText ps t)
      have hroom : ¬ 0 ≥ maxLcoreParams := by decide
      rw [parseConfigLoop_cons, if_neg hroom, hgroup, if_pos hopen]
      rfl

/-- What a round writes: one element, and in it the port. -/
structure Wrote (port : Arg) (s : State) (r : State × Bool) : Prop where
  below : ∀ i < s.nbLcoreParams, r.1.lcoreParamsArray i = s.lcoreParamsArray i
  port : s.errno = 0 → ∀ v, Begins port v →
    (r.1.lcoreParamsArray s.nbLcoreParams).portId = v
  next : r.2 = true → r.1.nbLcoreParams = s.nbLcoreParams + 1

/-- However often the element is written. -/
theorem wrote_of_update {port : Arg} {r : State × Bool} {m : LcoreParams}
    (harray : r.1.lcoreParamsArray = Function.update s.lcoreParamsArray s.nbLcoreParams m)
    (hport : s.errno = 0 → ∀ v, Begins port v → m.portId = v)
    (hnext : r.2 = true → r.1.nbLcoreParams = s.nbLcoreParams + 1) : Wrote port s r := by
  refine ⟨fun i hi => ?_, fun herrno v hv => ?_, hnext⟩
  · rw [harray, Function.update_of_ne hi.ne]
  · rw [harray, Function.update_self]
    exact hport herrno v hv

theorem parseFields_wrote {port job lcore : Arg} {r : State × Bool}
    (hroom : s.nbLcoreParams < maxLcoreParams) (h : parseFields port job lcore s = some r) :
    Wrote port s r := by
  simp only [parseFields, State.fill, Mapping.store, if_pos hroom, Option.map_some,
    Option.bind_some, Function.update_self, Function.update_idem] at h
  split at h
  next hnone =>
    cases h
    refine ⟨fun _ _ => rfl, fun herrno v hv => ?_, fun hmore => absurd hmore Bool.false_ne_true⟩
    rw [herrno, strToUint8_of_begins hv] at hnone
    cases hnone
  next v hsome =>
    have hv : s.errno = 0 → ∀ w, Begins port w → v = w := by
      intro herrno w hw
      rw [herrno, strToUint8_of_begins hw] at hsome
      exact (Option.some.inj hsome).symm
    split at h
    next =>
      cases h
      exact wrote_of_update rfl hv fun hmore => absurd hmore Bool.false_ne_true
    next w hlcore =>
      split at h
      next =>
        cases h
        exact wrote_of_update rfl hv fun _ => rfl
      next =>
        split at h
        next =>
          cases h
          exact wrote_of_update rfl hv fun _ => rfl
        next =>
          cases h
          exact wrote_of_update rfl hv fun hmore => absurd hmore Bool.false_ne_true

/-- A group writes no element below the one that is to be filled. -/
theorem parseGroup_below {body rest : Arg} {r : State × Bool}
    (hroom : s.nbLcoreParams < maxLcoreParams)
    (h : parseGroup rteStrsplit (body ++ rest) body.length s = some r) :
    (∀ i < s.nbLcoreParams, r.1.lcoreParamsArray i = s.lcoreParamsArray i)
      ∧ (r.2 = true → r.1.nbLcoreParams = s.nbLcoreParams + 1) := by
  rw [parseGroup_eq] at h
  split at h
  next =>
    cases h
    exact ⟨fun _ _ => rfl, fun hmore => absurd hmore Bool.false_ne_true⟩
  next =>
    rcases parseTokens_cases (rteStrsplit (copied body) sizeofS numFld ',') s with
      ⟨port, job, lcore, htoks, hfields⟩ | hother
    · rw [hfields] at h
      obtain ⟨hbelow, -, hnext⟩ := parseFields_wrote hroom h
      exact ⟨hbelow, hnext⟩
    · rw [hother] at h
      cases h
      exact ⟨fun _ _ => rfl, fun hmore => absurd hmore Bool.false_ne_true⟩

/-- And so does the rest of the loop. -/
theorem parseConfigLoop_below {r : State × Int} (h : parseConfigLoop rteStrsplit str s = some r) :
    ∀ i < s.nbLcoreParams, r.1.lcoreParamsArray i = s.lcoreParamsArray i := by
  obtain ⟨ps, t, rfl⟩ := exists_cut str
  induction ps generalizing s with
  | nil =>
      intro i _
      rw [parseConfigLoop_nil] at h
      split at h
      next =>
        cases h
        rfl
      next =>
        cases h
        rfl
  | cons p ps ih =>
      intro i hi
      rw [parseConfigLoop_cons] at h
      split at h
      next =>
        cases h
        rfl
      next hroom =>
        obtain ⟨r', hgroup, hrest⟩ := Option.bind_eq_some_iff.mp h
        obtain ⟨hbelow, hnext⟩ := parseGroup_below (Nat.not_le.mp hroom) hgroup
        split at hrest
        next hmore =>
          rw [ih hrest i (by rw [hnext hmore]; omega), hbelow i hi]
        next =>
          cases hrest
          exact hbelow i hi

/-- The first number of a configuration, once it was read, is in the array. -/
theorem parseConfig_port {p : Piece} {rest port job lcore : Arg} {v : UInt8}
    (hshort : p.body.length % 2 ^ 32 < sizeofS)
    (htoks : rteStrsplit (copied p.body) sizeofS numFld ',' = [port, job, lcore])
    (hv : Begins port v) (herrno : s.errno = 0) {r : State × Int}
    (h : parseConfig rteStrsplit (p.text rest) s = some r) :
    (r.1.lcoreParamsArray 0).portId = v := by
  have hroom : ¬ 0 ≥ maxLcoreParams := by decide
  rw [parseConfig, parseConfigLoop_round, if_neg hroom, parseGroup_eq,
    if_neg (Nat.not_le.mpr hshort), htoks] at h
  obtain ⟨r', hfields, hrest⟩ := Option.bind_eq_some_iff.mp h
  obtain ⟨-, hport, hnext⟩ := parseFields_wrote (Nat.not_le.mp hroom) hfields
  have hfirst : (r'.1.lcoreParamsArray 0).portId = v := hport herrno v hv
  split at hrest
  next hmore =>
    rw [parseConfigLoop_below hrest 0 (by rw [hnext hmore]; exact Nat.succ_pos _), hfirst]
  next =>
    cases hrest
    exact hfirst

/-- Two values of `errno` make no difference to a configuration, whatever was
in the variables before. The arrays are compared as a whole: an element behind
the new `nb_lcore_params`, which no one reads, may be the difference. -/
def ConfigSame (rteStrsplit : Arg → ℕ → ℕ → Char → List Arg) (str : Arg) (e e' : Int) : Prop :=
  ∀ s : State, forget (parseConfig rteStrsplit str { s with errno := e })
    = forget (parseConfig rteStrsplit str { s with errno := e' })

/-- A number that is read makes a difference. -/
theorem not_same_of_reads (hreads : ReadsNumber rteStrsplit str) (he : e ≠ 0) :
    ∃ s : State, forget (parseConfig rteStrsplit str { s with errno := 0 })
      ≠ forget (parseConfig rteStrsplit str { s with errno := e }) := by
  obtain ⟨p, rest, rfl, hshort, port, job, lcore, v, htoks, hv⟩ := hreads
  -- the array starts with another port
  refine ⟨{ State.start with lcoreParamsArray := fun _ => ⟨v + 1, .rx, 0⟩ }, fun heq => ?_⟩
  have hopen : '(' ∈ p.text rest := List.mem_append_right p.gap List.mem_cons_self
  rw [parseConfig_stops (.inl he), if_pos hopen] at heq
  obtain ⟨r, hrun, hr⟩ := Option.map_eq_some_iff.mp heq
  have hport := parseConfig_port hshort htoks hv rfl hrun
  have hsame : (r.1.lcoreParamsArray 0).portId = v + 1 :=
    congrArg (fun x : State × Int => (x.1.lcoreParamsArray 0).portId) hr
  rw [hport] at hsame
  exact absurd hsame (by grind)

theorem configSame_iff :
    ConfigSame rteStrsplit str e e' ↔ (e = 0 ↔ e' = 0) ∨ ¬ ReadsNumber rteStrsplit str := by
  by_cases hreads : ReadsNumber rteStrsplit str
  case neg =>
    refine iff_of_true (fun s => ?_) (.inr hreads)
    rw [parseConfig_stops (.inr hreads), parseConfig_stops (.inr hreads)]
  case pos =>
    rw [or_iff_left (not_not.mpr hreads)]
    by_cases h : e = 0
    · by_cases h' : e' = 0
      · rw [h, h']
        exact iff_of_true (fun _ => rfl) Iff.rfl
      · obtain ⟨s, hne⟩ := not_same_of_reads hreads h'
        rw [h]
        exact iff_of_false (fun hsame => hne (hsame s)) fun hiff => h' (hiff.mp rfl)
    · by_cases h' : e' = 0
      · obtain ⟨s, hne⟩ := not_same_of_reads hreads h
        rw [h']
        exact iff_of_false (fun hsame => hne (hsame s).symm) fun hiff => h (hiff.mpr rfl)
      · refine iff_of_true (fun s => ?_) (iff_of_false h h')
        rw [parseConfig_stops (.inl h), parseConfig_stops (.inl h')]

-- ============================================================ the three of them

/-- When an `errno` that was left behind makes no difference to the parsers. -/
theorem errno_same_iff (rteStrsplit : Arg → ℕ → ℕ → Char → List Arg) (str : Arg) (e e' : Int) :
    ((strToUint8 str e).1 = (strToUint8 str e').1
        ↔ (e = 0 ↔ e' = 0) ∨ ∀ v, ¬ Begins str v)
      ∧ (ConfigSame rteStrsplit str e e'
        ↔ (e = 0 ↔ e' = 0) ∨ ¬ ReadsNumber rteStrsplit str)
      ∧ ((parseRate str e).1 = (parseRate str e').1
        ↔ (RateErrno e ↔ RateErrno e') ∨ ¬ ReadsRate str) :=
  ⟨strToUint8_same_iff, configSame_iff, parseRate_same_iff⟩

/-- After an overflow somewhere, 1 is no number and (1,R,2) no configuration. -/
theorem errno_not_same :
    (strToUint8 ['1'] 0).1 ≠ (strToUint8 ['1'] erange).1
      ∧ ¬ ConfigSame (fun str _ n delim => tokens delim n str)
        ['(', '1', ',', 'R', ',', '2', ')'] 0 erange
      ∧ (parseRate ['1'] 0).1 ≠ (parseRate ['1'] erange).1 := by
  refine ⟨by decide, ?_, by decide +kernel⟩
  intro hsame
  have hreads : ReadsNumber (fun str _ n delim => tokens delim n str)
      ['(', '1', ',', 'R', ',', '2', ')'] :=
    ⟨⟨[], ['1', ',', 'R', ',', '2'], by decide, by decide⟩, [], rfl, by decide, ['1'], ['R'], ['2'],
      1, by decide, ⟨by decide, by decide, by decide⟩⟩
  have hne : erange ≠ 0 := by decide
  obtain ⟨s, hdiff⟩ := not_same_of_reads hreads hne
  exact hdiff (hsame s)

end PktSender.Options
