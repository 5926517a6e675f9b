/-
One group of the mapping configuration.

# Numbers

`str_to_uint8` succeeds when `errno` was zero and `strtoul` finds a number
that fits a byte at the front of the string (`Begins`); what is behind the
number is not looked at.

# Fields

`Splits` is what is used of `rte_strsplit`: the front tokens are what stands
between delimiters and the last is the rest. The rest of a group that is empty
or starts with a delimiter may be cut off, which is a group that is refused in
any case. So a group is accepted when it is a number, a letter and a number,
each with anything behind it that is not a comma in the first
(`parseGroup_ok`), and in no other case (`parseGroup_not_ok`).
-/
import PktSender.Options.Basic

namespace PktSender.Options

open CString (strtoul)
open Mapping (LcoreParams maxLcoreParams)
open Port (Job)

variable {rteStrsplit : Arg → ℕ → ℕ → Char → List Arg} {s : State}

-- ================================================================ the numbers

/-- `strtoul` finds this number at the front of a string. -/
structure Begins (str : Arg) (v : UInt8) : Prop where
  found : (strtoul str 0).rest.length ≠ str.length
  inRange : (strtoul str 0).erange = false
  val : (strtoul str 0).val = v.toUInt64

/-- There is one at most. -/
theorem Begins.unique {str : Arg} {v w : UInt8} (hv : Begins str v) (hw : Begins str w) :
    v = w :=
  UInt8.toUInt64_inj.mp (hv.val.symm.trans hw.val)

/-- Then `str_to_uint8` returns it. -/
theorem strToUint8_of_begins {str : Arg} {v : UInt8} (h : Begins str v) :
    strToUint8 str 0 = (some v, 0) := by
  obtain ⟨hfound, hrange, hval⟩ := h
  have hle : ¬ v.toUInt64 > 255 := by
    rw [gt_iff_lt, UInt64.not_lt, UInt64.le_iff_toNat_le, UInt8.toNat_toUInt64]
    exact Nat.le_of_lt_succ v.toNat_lt
  simp [strToUint8, errnoAfter, hrange, hfound, hval, hle]

/-- In every other case it fails. -/
theorem strToUint8_fails {str : Arg} {errno : Int} (h : errno = 0 → ∀ v, ¬ Begins str v) :
    (strToUint8 str errno).1 = none := by
  simp only [strToUint8]
  split
  next => rfl
  next hok =>
    simp only [Bool.or_eq_true, decide_eq_true_eq, not_or, not_not] at hok
    obtain ⟨⟨herrno, hfound⟩, hle⟩ := hok
    have hrange : (strtoul str 0).erange = false := by
      by_contra htrue
      rw [errnoAfter, if_pos (by simpa using htrue)] at herrno
      exact absurd herrno (by decide)
    rw [errnoAfter, if_neg (by rw [hrange]; decide)] at herrno
    rw [gt_iff_lt, UInt64.not_lt, UInt64.le_iff_toNat_le] at hle
    refine absurd ⟨hfound, hrange, ?_⟩ (h herrno (strtoul str 0).val.toUInt8)
    apply UInt64.toNat_inj.mp
    rw [UInt8.toNat_toUInt64, UInt64.toNat_toUInt8]
    exact (Nat.mod_eq_of_lt (Nat.lt_succ_of_le hle)).symm

/-- A number that stands in decimal. -/
theorem begins_toDigits (v : UInt8) : Begins (Nat.toDigits 10 v.toNat) v := by
  have hlt := v.toNat_lt
  have hconv : strtoul (Nat.toDigits 10 v.toNat) 0
      = { val := UInt64.ofNat v.toNat, rest := [], erange := false } := by
    rw [CString.strtoul_of_lt (CString.scan_toDigits _) (by simp only; omega)]
    rfl
  refine ⟨?_, ?_, ?_⟩
  · rw [hconv]
    exact (List.length_pos_iff.mpr Nat.toDigits_ne_nil).ne
  · rw [hconv]
  · rw [hconv]
    exact UInt64.toNat_inj.mp (by simp)

/-- No number begins with nothing, or with a comma. -/
theorem not_begins_nil (v : UInt8) : ¬ Begins [] v := by
  intro h
  exact h.found rfl

theorem not_begins_comma (rest : Arg) (v : UInt8) : ¬ Begins (',' :: rest) v := by
  intro h
  apply h.found
  have hnone : CString.scan 0 (',' :: rest) = none :=
    CString.scan_of_not_digit (by decide) rfl (by decide) (by decide)
  rw [(CString.conversion_of_none hnone).1]

-- ================================================================= the fields

/-- The letter of a job. -/
def letter : Job → Char
  | .rx => 'R'
  | .tx => 'T'

/-- One more mapping. -/
def State.push (s : State) (m : LcoreParams) : State :=
  { s with
    lcoreParamsArray := Function.update s.lcoreParamsArray s.nbLcoreParams m
    nbLcoreParams := s.nbLcoreParams + 1 }

/-- A number, a letter and a number are a mapping. -/
theorem parseFields_ok {port job lcore : Arg} {m : LcoreParams}
    (hroom : s.nbLcoreParams < maxLcoreParams) (herrno : s.errno = 0)
    (hport : Begins port m.portId) (hjob : job = [letter m.job])
    (hlcore : Begins lcore m.lcoreId) :
    parseFields port job lcore s = some (s.push m, true) := by
  obtain ⟨portId, j, lcoreId⟩ := m
  subst hjob
  have hlast : strToUint8 lcore 0 = (some lcoreId, 0) := strToUint8_of_begins hlcore
  simp only [parseFields, herrno, strToUint8_of_begins hport]
  cases j with
  | rx => simp [State.fill, Mapping.store, hroom, letter, State.push, herrno, hlast]
  | tx => simp [State.fill, Mapping.store, hroom, letter, State.push, herrno, hlast]

/-- Whatever else the three fields are, the group is refused. -/
theorem parseFields_not_ok {port job lcore : Arg} (hroom : s.nbLcoreParams < maxLcoreParams)
    (h : s.errno = 0 → ∀ m : LcoreParams,
      ¬ (Begins port m.portId ∧ job = [letter m.job] ∧ Begins lcore m.lcoreId)) :
    ∃ s', parseFields port job lcore s = some (s', false) := by
  by_cases hport : ∃ v, s.errno = 0 ∧ Begins port v
  case neg =>
    have hfail := @strToUint8_fails port s.errno fun herrno v hv => hport ⟨v, herrno, hv⟩
    simp only [parseFields, hfail]
    exact ⟨_, rfl⟩
  case pos =>
    obtain ⟨v, herrno, hv⟩ := hport
    by_cases hlcore : ∃ w, Begins lcore w
    case neg =>
      have hfail := @strToUint8_fails lcore 0 fun _ w hw => hlcore ⟨w, hw⟩
      simp only [parseFields, herrno, strToUint8_of_begins hv]
      simp only [State.fill, Mapping.store, if_pos hroom, Option.map_some, Option.bind_some, hfail]
      exact ⟨_, rfl⟩
    case pos =>
      obtain ⟨w, hw⟩ := hlcore
      have hrx : job ≠ ['R'] := fun hj => h herrno ⟨v, .rx, w⟩ ⟨hv, hj, hw⟩
      have htx : job ≠ ['T'] := fun hj => h herrno ⟨v, .tx, w⟩ ⟨hv, hj, hw⟩
      simp only [parseFields, herrno, strToUint8_of_begins hv]
      simp only [State.fill, Mapping.store, if_pos hroom, Option.map_some, Option.bind_some,
        strToUint8_of_begins hw, if_neg hrx, if_neg htx]
      exact ⟨_, rfl⟩

-- ================================================================== a group

/-- `rte_strsplit`: at most one token more than there are delimiters; the first
tokens are what stands between the delimiters, and the last is the rest. An
empty rest is no token, and one that starts with a delimiter may be cut
there. -/
structure Splits (rteStrsplit : Arg → ℕ → ℕ → Char → List Arg) : Prop where
  few : ∀ str len n delim, (rteStrsplit str len n delim).length ≤ str.count delim + 1
  full : ∀ front last len delim, (∀ tok ∈ front, delim ∉ tok) →
    (front.flatMap (· ++ [delim]) ++ last).length < len → last ≠ [] → last.head? ≠ some delim →
    rteStrsplit (front.flatMap (· ++ [delim]) ++ last) len (front.length + 1) delim
      = front ++ [last]
  cut : ∀ front last len delim, (∀ tok ∈ front, delim ∉ tok) →
    (front.flatMap (· ++ [delim]) ++ last).length < len →
    last = [] ∨ last.head? = some delim →
    rteStrsplit (front.flatMap (· ++ [delim]) ++ last) len (front.length + 1) delim = front
      ∨ ∃ tok, rteStrsplit (front.flatMap (· ++ [delim]) ++ last) len (front.length + 1) delim
          = front ++ [tok] ∧ (tok = [] ∨ tok.head? = some delim)

/-- The loop of DPDK's function, a token a round: the last one is looked at
only where it starts. -/
def tokens (delim : Char) : ℕ → Arg → List Arg
  | 0, _ => []
  | _ + 1, [] => []
  | 1, c :: str => if c = delim then [[]] else [c :: str]
  | n + 2, c :: str =>
      (c :: str).takeWhile (· ≠ delim)
        :: tokens delim (n + 1) (((c :: str).dropWhile (· ≠ delim)).drop 1)

/-- A token that has a delimiter behind it. -/
theorem tokens_append {delim : Char} {tok : Arg} (h : delim ∉ tok) (n : ℕ) (rest : Arg) :
    tokens delim (n + 2) (tok ++ delim :: rest) = tok :: tokens delim (n + 1) rest := by
  have hne : ∀ c ∈ tok, decide (c ≠ delim) = true := fun c hc =>
    decide_eq_true fun heq => h (heq ▸ hc)
  have htake : (tok ++ delim :: rest).takeWhile (· ≠ delim) = tok := by
    rw [List.takeWhile_append_of_pos hne, List.takeWhile_cons_of_neg (by simp), List.append_nil]
  have hdrop : (tok ++ delim :: rest).dropWhile (· ≠ delim) = delim :: rest := by
    rw [List.dropWhile_append_of_pos hne, List.dropWhile_cons_of_neg (by simp)]
  obtain ⟨c, str, hcons⟩ : ∃ c str, tok ++ delim :: rest = c :: str := by
    cases tok with
    | nil => exact ⟨_, _, rfl⟩
    | cons c tok => exact ⟨_, _, rfl⟩
  rw [hcons] at htake hdrop ⊢
  rw [tokens, htake, hdrop]
  rfl

/-- All of the front, by induction on it. -/
theorem tokens_front {delim : Char} {front : List Arg} (h : ∀ tok ∈ front, delim ∉ tok)
    (last : Arg) :
    tokens delim (front.length + 1) (front.flatMap (· ++ [delim]) ++ last)
      = front ++ tokens delim 1 last := by
  induction front with
  | nil => rfl
  | cons tok front ih =>
      rw [List.forall_mem_cons] at h
      rw [List.flatMap_cons, List.append_assoc, List.append_assoc, List.singleton_append,
        List.length_cons, tokens_append h.1, ih h.2, List.cons_append]

theorem length_tokens_le (delim : Char) (n : ℕ) (str : Arg) :
    (tokens delim n str).length ≤ str.count delim + 1 := by
  induction n generalizing str with
  | zero => exact Nat.zero_le _
  | succ n ih =>
      match n, str with
      | _, [] => exact Nat.zero_le _
      | 0, c :: str =>
          rw [tokens]
          split
          next => exact Nat.le_add_left 1 _
          next => exact Nat.le_add_left 1 _
      | n + 1, c :: str =>
          by_cases hmem : delim ∈ c :: str
          · obtain ⟨tok, rest, hsplit, htok⟩ := List.eq_append_cons_of_mem hmem
            rw [hsplit, tokens_append htok, List.length_cons, List.count_append,
              List.count_cons_self]
            have hrest := ih rest
            omega
          · -- one token, and nothing behind it
            have hall : ∀ d ∈ c :: str, decide (d ≠ delim) = true := fun d hd =>
              decide_eq_true fun heq => hmem (heq ▸ hd)
            have hdrop : (c :: str ++ []).dropWhile (· ≠ delim) = [] :=
              List.dropWhile_append_of_pos hall
            rw [List.append_nil] at hdrop
            rw [tokens, hdrop]
            exact Nat.le_add_left 1 _

/-- The loop is such a split. -/
theorem splits_tokens : Splits fun str _ n delim => tokens delim n str where
  few str _ n delim := length_tokens_le delim n str
  full front last len delim h _ hne hhead := by
    rw [tokens_front h]
    obtain ⟨c, str, rfl⟩ := List.exists_cons_of_ne_nil hne
    rw [tokens, if_neg fun hc => hhead (congrArg some hc)]
  cut front last len delim h _ hcut := by
    rw [tokens_front h]
    rcases hcut with rfl | hcut
    · exact .inl (List.append_nil front)
    · obtain ⟨str, rfl⟩ := List.head?_eq_some_iff.mp hcut
      refine .inr ⟨[], ?_, .inl rfl⟩
      rw [tokens, if_pos rfl]

/-- What `__parse_config` copies of a group. -/
def copied (body : Arg) : Arg := body.take (body.length % 2 ^ 32)

/-- A group that is taken for a mapping. -/
structure GroupOk (body : Arg) (m : LcoreParams) : Prop where
  short : body.length % 2 ^ 32 < sizeofS
  fields : ∃ port lcore, copied body = port ++ ',' :: letter m.job :: ',' :: lcore
    ∧ ',' ∉ port ∧ Begins port m.portId ∧ Begins lcore m.lcoreId

/-- A group is refused for its length, or its copy is split. -/
theorem parseGroup_eq (body rest : Arg) (s : State) :
    parseGroup rteStrsplit (body ++ rest) body.length s
      = if body.length % 2 ^ 32 ≥ sizeofS then some (s, false)
        else parseTokens (rteStrsplit (copied body) sizeofS numFld ',') s := by
  have hsize : (UInt32.ofNat body.length).toNat = body.length % 2 ^ 32 := UInt32.toNat_ofNat'
  have htake : (body ++ rest).take (body.length % 2 ^ 32) = copied body :=
    List.take_append_of_le_length (Nat.mod_le _ _)
  rw [parseGroup]
  simp only [hsize, htake]

/-- Only three tokens are fields. -/
theorem parseTokens_cases (toks : List Arg) (s : State) :
    (∃ port job lcore, toks = [port, job, lcore]
        ∧ parseTokens toks s = parseFields port job lcore s)
      ∨ parseTokens toks s = some (s, false) := by
  match toks with
  | [port, job, lcore] => exact .inl ⟨port, job, lcore, rfl, rfl⟩
  | [] => exact .inr rfl
  | [_] => exact .inr rfl
  | [_, _] => exact .inr rfl
  | _ :: _ :: _ :: _ :: _ => exact .inr rfl

theorem length_copied_le (body : Arg) : (copied body).length ≤ body.length % 2 ^ 32 := by
  rw [copied, List.length_take]
  exact Nat.min_le_left _ _

/-- A string has three fields, or not two commas. -/
theorem three_fields (str : Arg) :
    (∃ port job lcore, str = port ++ ',' :: (job ++ ',' :: lcore) ∧ ',' ∉ port ∧ ',' ∉ job)
      ∨ str.count ',' < 2 := by
  by_cases hmem : ',' ∈ str
  case neg =>
    right
    rw [List.count_eq_zero_of_not_mem hmem]
    decide
  case pos =>
    obtain ⟨port, rest, rfl, hport⟩ := List.eq_append_cons_of_mem hmem
    by_cases hmem' : ',' ∈ rest
    case neg =>
      right
      rw [List.count_append, List.count_cons_self, List.count_eq_zero_of_not_mem hport,
        List.count_eq_zero_of_not_mem hmem']
      decide
    case pos =>
      obtain ⟨job, lcore, rfl, hjob⟩ := List.eq_append_cons_of_mem hmem'
      exact .inl ⟨port, job, lcore, rfl, hport, hjob⟩

section Split

variable (hsplit : Splits rteStrsplit) {port job lcore : Arg} (hport : ',' ∉ port)
  (hjob : ',' ∉ job) (hlen : (port ++ ',' :: (job ++ ',' :: lcore)).length < sizeofS)

include hsplit hport hjob hlen

/-- A last field that starts with something else than a delimiter is a token. -/
theorem Splits.three (hne : lcore ≠ []) (hhead : lcore.head? ≠ some ',') :
    rteStrsplit (port ++ ',' :: (job ++ ',' :: lcore)) sizeofS numFld ','
      = [port, job, lcore] := by
  have hfull := hsplit.full [port, job] lcore sizeofS ','
  simp only [List.flatMap_cons, List.flatMap_nil, List.append_assoc, List.nil_append,
    List.mem_cons, List.not_mem_nil, or_false, forall_eq_or_imp, forall_eq,
    List.cons_append] at hfull
  exact hfull ⟨hport, hjob⟩ hlen hne hhead

/-- The last field of the three, if there is one, is no number. -/
theorem Splits.three_cut (hcut : lcore = [] ∨ lcore.head? = some ',') :
    rteStrsplit (port ++ ',' :: (job ++ ',' :: lcore)) sizeofS numFld ',' = [port, job]
      ∨ ∃ tok, rteStrsplit (port ++ ',' :: (job ++ ',' :: lcore)) sizeofS numFld ','
          = [port, job, tok] ∧ (tok = [] ∨ tok.head? = some ',') := by
  have hcuts := hsplit.cut [port, job] lcore sizeofS ','
  simp only [List.flatMap_cons, List.flatMap_nil, List.append_assoc, List.nil_append,
    List.mem_cons, List.not_mem_nil, or_false, forall_eq_or_imp, forall_eq,
    List.cons_append] at hcuts
  exact hcuts ⟨hport, hjob⟩ hlen hcut

end Split

/-- Nothing and a comma are no number. -/
theorem not_begins_cut {tok : Arg} (hcut : tok = [] ∨ tok.head? = some ',') (v : UInt8) :
    ¬ Begins tok v := by
  rcases hcut with rfl | hcut
  · exact not_begins_nil v
  · obtain ⟨rest, rfl⟩ := List.head?_eq_some_iff.mp hcut
    exact not_begins_comma rest v

theorem comma_not_mem_letter (j : Job) : ',' ∉ [letter j] := by
  cases j with
  | rx => decide
  | tx => decide

/-- A group that is a mapping is accepted as that one, -/
theorem parseGroup_ok (hsplit : Splits rteStrsplit) {body : Arg} {m : LcoreParams}
    (hroom : s.nbLcoreParams < maxLcoreParams) (herrno : s.errno = 0) (hok : GroupOk body m)
    (rest : Arg) :
    parseGroup rteStrsplit (body ++ rest) body.length s = some (s.push m, true) := by
  obtain ⟨hshort, port, lcore, hcopied, hcomma, hport, hlcore⟩ := hok
  have hlen := length_copied_le body
  rw [hcopied] at hlen
  have htoks := @Splits.three _ hsplit port [letter m.job] lcore hcomma
    (comma_not_mem_letter m.job) (Nat.lt_of_le_of_lt hlen hshort)
    (fun h => not_begins_cut (.inl h) _ hlcore) (fun h => not_begins_cut (.inr h) _ hlcore)
  rw [parseGroup_eq, if_neg (Nat.not_le.mpr hshort), hcopied]
  rw [List.singleton_append] at htoks
  rw [htoks]
  exact parseFields_ok hroom herrno hport rfl hlcore

/-- and no other group is accepted. -/
theorem parseGroup_not_ok (hsplit : Splits rteStrsplit) {body : Arg}
    (hroom : s.nbLcoreParams < maxLcoreParams) (hbad : ∀ m, ¬ GroupOk body m) (rest : Arg) :
    ∃ s', parseGroup rteStrsplit (body ++ rest) body.length s = some (s', false) := by
  rw [parseGroup_eq]
  split
  case isTrue => exact ⟨s, rfl⟩
  case isFalse hshort =>
    have hshort := Nat.not_le.mp hshort
    rcases parseTokens_cases (rteStrsplit (copied body) sizeofS numFld ',') s with
      ⟨port, job, lcore, htoks, hfields⟩ | hother
    case inr => exact ⟨s, hother⟩
    case inl =>
      rw [hfields]
      apply parseFields_not_ok hroom
      rintro - m ⟨hport, rfl, hlcore⟩
      have hlen := length_copied_le body
      rcases three_fields (copied body) with ⟨port', job', lcore', hcopied, hp, hj⟩ | hfew
      · rw [hcopied] at htoks hlen
        by_cases hcut : lcore' = [] ∨ lcore'.head? = some ','
        · -- the split drops the last field, or it is no number
          rcases @Splits.three_cut _ hsplit _ _ _ hp hj (Nat.lt_of_le_of_lt hlen hshort) hcut
            with htwo | ⟨tok, htok, htokcut⟩
          · rw [htwo] at htoks
            cases htoks
          · rw [htok] at htoks
            cases htoks
            exact not_begins_cut htokcut _ hlcore
        · rw [not_or] at hcut
          rw [@Splits.three _ hsplit _ _ _ hp hj (Nat.lt_of_le_of_lt hlen hshort) hcut.1
            hcut.2] at htoks
          cases htoks
          exact hbad m ⟨hshort, port, lcore, hcopied, hp, hport, hlcore⟩
      · have hcount := hsplit.few (copied body) sizeofS numFld ','
        rw [htoks] at hcount
        simp only [List.length_cons, List.length_nil] at hcount
        omega

end PktSender.Options
