/-
The loop of `__parse_config`, and the configurations it reads back.

# Cuts

The loop goes from bracket to bracket, so a string is to it a list of pieces,
each a gap and a group in brackets, and a tail; every string is cut like that
in one way (`exists_cut`, `cutText_inj`). A round of the loop is one
piece: it takes the group for a mapping or ends with -1
(`parseConfigLoop_round`). So the whole loop takes the mappings of all groups
(`parseConfigLoop_accepted`), or it ends with -1 (`parseConfigLoop_refused`).

# Configurations

A configuration is a list of groups with commas between them (`config`),
which is a cut whose gaps are these commas.
-/
import PktSender.Lib.LastWrite
import PktSender.Options.Proofs.Fields

namespace PktSender.Options

open CString (strchr strchr_append strchr_self strchr_none)
open Mapping (LcoreParams maxLcoreParams)

variable {rteStrsplit : Arg → ℕ → ℕ → Char → List Arg} {s : State}

-- ==================================================================== cuts

/-- A group in brackets, and what is before it. -/
@[ext]
structure Piece where
  gap : Arg
  body : Arg
  gap_free : '(' ∉ gap
  body_free : ')' ∉ body

/-- What is behind the last group: no bracket, or one that is not closed. -/
inductive Tail where
  | done (gap : Arg) (hgap : '(' ∉ gap)
  | unclosed (gap rest : Arg) (hgap : '(' ∉ gap) (hrest : ')' ∉ rest)

def Tail.text : Tail → Arg
  | done gap _ => gap
  | unclosed gap rest _ _ => gap ++ '(' :: rest

def Piece.text (p : Piece) (rest : Arg) : Arg := p.gap ++ '(' :: (p.body ++ ')' :: rest)

def cutText (ps : List Piece) (t : Tail) : Arg := ps.foldr Piece.text t.text

/-- Every string can be cut into groups, -/
theorem exists_cut (str : Arg) : ∃ ps t, str = cutText ps t := by
  induction hn : str.length using Nat.strongRecOn generalizing str with
  | ind n ih =>
      by_cases hopen : '(' ∈ str
      case neg => exact ⟨[], .done str hopen, rfl⟩
      case pos =>
        obtain ⟨gap, rest, rfl, hgap⟩ := List.eq_append_cons_of_mem hopen
        by_cases hclose : ')' ∈ rest
        case neg => exact ⟨[], .unclosed gap rest hgap hclose, rfl⟩
        case pos =>
          obtain ⟨body, rest, rfl, hbody⟩ := List.eq_append_cons_of_mem hclose
          have hlt : rest.length < n := by
            rw [← hn]
            simp only [List.length_append, List.length_cons]
            omega
          obtain ⟨ps, t, rfl⟩ := ih _ hlt rest rfl
          exact ⟨⟨gap, body, hgap, hbody⟩ :: ps, t, rfl⟩

theorem Piece.text_inj {p q : Piece} {a b : Arg} (h : p.text a = q.text b) : p = q ∧ a = b := by
  obtain ⟨hgap, hrest⟩ := CString.append_cons_inj p.gap_free q.gap_free h
  obtain ⟨hbody, hab⟩ := CString.append_cons_inj p.body_free q.body_free hrest
  exact ⟨Piece.ext hgap hbody, hab⟩

/-- A tail has no group in it. -/
theorem Tail.text_ne (t : Tail) (p : Piece) (rest : Arg) : t.text ≠ p.text rest := by
  intro h
  cases t with
  | done gap hgap =>
      apply hgap
      rw [show gap = p.text rest from h]
      exact List.mem_append_right _ List.mem_cons_self
  | unclosed gap rest' hgap hrest =>
      obtain ⟨-, heq⟩ := CString.append_cons_inj hgap p.gap_free h
      apply hrest
      rw [heq]
      exact List.mem_append_right _ List.mem_cons_self

/-- and in one way only. -/
theorem cutText_inj {ps qs : List Piece} {t u : Tail} (h : cutText ps t = cutText qs u) :
    ps = qs ∧ t.text = u.text := by
  induction ps generalizing qs with
  | nil =>
      cases qs with
      | nil => exact ⟨rfl, h⟩
      | cons q qs => exact absurd h (t.text_ne q (cutText qs u))
  | cons p ps ih =>
      cases qs with
      | nil => exact absurd h.symm (u.text_ne p (cutText ps t))
      | cons q qs =>
          obtain ⟨rfl, hrest⟩ := Piece.text_inj h
          obtain ⟨rfl, htail⟩ := ih hrest
          exact ⟨rfl, htail⟩

-- ==================================================================== rounds

theorem parseConfigLoop_eq (p0 : Arg) (s : State) :
    parseConfigLoop rteStrsplit p0 s
      = (strchr p0 '(').elim (some ({ s with lcoreParams := true }, 0)) fun p =>
          if s.nbLcoreParams ≥ maxLcoreParams then some (s, -1)
          else
            (strchr p.tail ')').elim (some (s, -1)) fun q =>
              (parseGroup rteStrsplit p.tail (p.tail.length - q.length) s).bind fun r =>
                if r.2 then parseConfigLoop rteStrsplit q r.1 else some (r.1, -1) := by
  conv_lhs => rw [parseConfigLoop]
  split
  next hnone =>
    rw [hnone]
    rfl
  next p hsome =>
    rw [hsome, Option.elim_some]
    split
    next => rfl
    next =>
      split
      next hnone => rw [hnone, Option.elim_none]
      next q hq => rw [hq, Option.elim_some]

theorem parseConfigLoop_skip {a : Arg} (h : '(' ∉ a) (p0 : Arg) :
    parseConfigLoop rteStrsplit (a ++ p0) s = parseConfigLoop rteStrsplit p0 s := by
  rw [parseConfigLoop_eq, parseConfigLoop_eq, strchr_append h]

/-- The tail, from wherever the loop comes to it. -/
theorem parseConfigLoop_done {gap : Arg} (h : '(' ∉ gap) :
    parseConfigLoop rteStrsplit gap s = some ({ s with lcoreParams := true }, 0) := by
  rw [parseConfigLoop_eq, strchr_none h, Option.elim_none]

theorem parseConfigLoop_unclosed {gap rest : Arg} (hgap : '(' ∉ gap) (hrest : ')' ∉ rest) :
    parseConfigLoop rteStrsplit (gap ++ '(' :: rest) s = some (s, -1) := by
  rw [parseConfigLoop_eq, strchr_append hgap, strchr_self, Option.elim_some]
  split
  next => rfl
  next => rw [List.tail_cons, strchr_none hrest, Option.elim_none]

/-- One piece is one round. -/
theorem parseConfigLoop_round (p : Piece) (rest : Arg) :
    parseConfigLoop rteStrsplit (p.text rest) s
      = if s.nbLcoreParams ≥ maxLcoreParams then some (s, -1)
        else
          (parseGroup rteStrsplit (p.body ++ ')' :: rest) p.body.length s).bind fun r =>
            if r.2 then parseConfigLoop rteStrsplit rest r.1 else some (r.1, -1) := by
  have hlen : (p.body ++ ')' :: rest).length - (')' :: rest).length = p.body.length := by
    rw [List.length_append, Nat.add_sub_cancel]
  have hclose : ∀ s, parseConfigLoop rteStrsplit (')' :: rest) s
      = parseConfigLoop rteStrsplit rest s := fun s =>
    parseConfigLoop_skip (by decide : '(' ∉ [')']) rest
  rw [Piece.text, parseConfigLoop_eq, strchr_append p.gap_free, strchr_self, Option.elim_some,
    List.tail_cons, strchr_append p.body_free, strchr_self, Option.elim_some, hlen]
  simp only [hclose]

/-- Behind the last group: a bracket that is not closed is an error. -/
theorem parseConfigLoop_nil (t : Tail) :
    parseConfigLoop rteStrsplit (cutText [] t) s
      = if '(' ∈ t.text then some (s, -1) else some ({ s with lcoreParams := true }, 0) := by
  cases t with
  | done gap hgap =>
      have hclosed : '(' ∉ (Tail.done gap hgap).text := hgap
      rw [if_neg hclosed]
      exact parseConfigLoop_done hgap
  | unclosed gap rest hgap hrest =>
      have hopen : '(' ∈ (Tail.unclosed gap rest hgap hrest).text :=
        List.mem_append_right gap List.mem_cons_self
      rw [if_pos hopen]
      exact parseConfigLoop_unclosed hgap hrest

/-- One turn of the loop is one group. -/
theorem parseConfigLoop_cons (p : Piece) (ps : List Piece) (t : Tail) :
    parseConfigLoop rteStrsplit (cutText (p :: ps) t) s
      = if s.nbLcoreParams ≥ maxLcoreParams then some (s, -1)
        else
          (parseGroup rteStrsplit (p.body ++ ')' :: cutText ps t) p.body.length s).bind fun r =>
            if r.2 then parseConfigLoop rteStrsplit (cutText ps t) r.1 else some (r.1, -1) :=
  parseConfigLoop_round p (cutText ps t)

/-- The mappings of a list one after the other. -/
def State.pushAll (s : State) (ms : List LcoreParams) : State := ms.foldl State.push s

@[simp] theorem pushAll_nbLcoreParams (ms : List LcoreParams) :
    (s.pushAll ms).nbLcoreParams = s.nbLcoreParams + ms.length := by
  induction ms generalizing s with
  | nil => rfl
  | cons m ms ih =>
      rw [List.length_cons, Nat.add_comm ms.length, ← Nat.add_assoc]
      exact ih

theorem pushAll_entries (ms : List LcoreParams) :
    (List.range (s.pushAll ms).nbLcoreParams).map (s.pushAll ms).lcoreParamsArray
      = (List.range s.nbLcoreParams).map s.lcoreParamsArray ++ ms := by
  induction ms generalizing s with
  | nil => exact (List.append_nil _).symm
  | cons m ms ih =>
      have hpush := @ih (s.push m)
      rw [State.push, LastWrite.map_range_update, List.append_assoc] at hpush
      exact hpush

-- ============================================================= whole strings

/-- All groups are mappings, and there is room for them. -/
theorem parseConfigLoop_accepted (hsplit : Splits rteStrsplit) {ps : List Piece}
    {ms : List LcoreParams} (hok : List.Forall₂ (fun p m => GroupOk p.body m) ps ms)
    (herrno : s.errno = 0) (hroom : s.nbLcoreParams + ps.length ≤ maxLcoreParams) {t : Tail}
    (hdone : '(' ∉ t.text) :
    parseConfigLoop rteStrsplit (cutText ps t) s
      = some ({ s.pushAll ms with lcoreParams := true }, 0) := by
  induction hok generalizing s with
  | nil => rw [parseConfigLoop_nil, if_neg hdone]; rfl
  | @cons p m ps ms hp hps ih =>
      rw [List.length_cons] at hroom
      have hlt : s.nbLcoreParams < maxLcoreParams := by omega
      have hgroup := parseGroup_ok hsplit hlt herrno hp (')' :: cutText ps t)
      rw [parseConfigLoop_cons, if_neg (Nat.not_le.mpr hlt), hgroup, Option.bind_some, if_pos rfl]
      exact @ih (s.push m) herrno (by simp only [State.push]; omega)

/-- A string the loop takes. -/
structure Accepted (ps : List Piece) (t : Tail) : Prop where
  room : ps.length ≤ maxLcoreParams
  groups : ∀ p ∈ ps, ∃ m, GroupOk p.body m
  done : '(' ∉ t.text

/-- There is a group that is none, or one too many, or one that is not closed. -/
theorem parseConfigLoop_refused (hsplit : Splits rteStrsplit) {ps : List Piece} {t : Tail}
    (herrno : s.errno = 0) (hroom : s.nbLcoreParams ≤ maxLcoreParams)
    (h : s.nbLcoreParams + ps.length ≤ maxLcoreParams → (∀ p ∈ ps, ∃ m, GroupOk p.body m) →
      '(' ∈ t.text) :
    ∃ s', parseConfigLoop rteStrsplit (cutText ps t) s = some (s', -1) := by
  induction ps generalizing s with
  | nil =>
      rw [parseConfigLoop_nil, if_pos (h hroom (List.forall_mem_nil _))]
      exact ⟨s, rfl⟩
  | cons p ps ih =>
      rw [parseConfigLoop_cons]
      by_cases hfull : s.nbLcoreParams ≥ maxLcoreParams
      · exact ⟨s, if_pos hfull⟩
      · have hlt := Nat.not_le.mp hfull
        rw [if_neg hfull]
        by_cases hp : ∃ m, GroupOk p.body m
        · obtain ⟨m, hm⟩ := hp
          rw [parseGroup_ok hsplit hlt herrno hm, Option.bind_some, if_pos rfl]
          apply @ih (s.push m) herrno hlt
          intro hlen hps
          apply h
          · rw [List.length_cons]
            simp only [State.push] at hlen
            omega
          · exact List.forall_mem_cons.mpr ⟨⟨m, hm⟩, hps⟩
        · obtain ⟨s', hs'⟩ := parseGroup_not_ok hsplit hlt (fun m hm => hp ⟨m, hm⟩)
            (')' :: cutText ps t)
          refine ⟨s', ?_⟩
          rw [hs', Option.bind_some]
          rfl

-- ============================================================ configurations

/-- The fields of a group. -/
structure Group where
  port : Arg
  job : Arg
  lcore : Arg

def Group.body (g : Group) : Arg := g.port ++ ',' :: (g.job ++ ',' :: g.lcore)

def Group.text (g : Group) : Arg := '(' :: (g.body ++ [')'])

/-- Groups with commas between them. -/
def config (gs : List Group) : Arg := [','].intercalate (gs.map Group.text)

/-- The gaps of a configuration of `n` groups. -/
def commas : ℕ → List Arg
  | 0 => []
  | n + 1 => [] :: List.replicate n [',']

theorem config_cons (g : Group) (gs : List Group) :
    config (g :: gs) = g.text ++ gs.flatMap fun g => ',' :: g.text := by
  induction gs generalizing g with
  | nil => simp [config]
  | cons g' gs ih =>
      have hrest := ih g'
      rw [config, List.map_cons] at hrest ⊢
      rw [List.map_cons, List.intercalate_cons_cons, hrest]
      simp

/-- Groups behind one another, each with the same gap before it. -/
theorem exists_pieces {gap : Arg} (hgap : '(' ∉ gap) {gs : List Group}
    (hfree : ∀ g ∈ gs, ')' ∉ g.body) :
    ∃ ps : List Piece, cutText ps (.done [] List.not_mem_nil) = gs.flatMap (fun g => gap ++ g.text)
      ∧ ps.map Piece.body = gs.map Group.body
      ∧ ps.map Piece.gap = List.replicate gs.length gap := by
  induction gs with
  | nil => exact ⟨[], rfl, rfl, rfl⟩
  | cons g gs ih =>
      rw [List.forall_mem_cons] at hfree
      obtain ⟨ps, htext, hbody, hgaps⟩ := ih hfree.2
      refine ⟨⟨gap, g.body, hgap, hfree.1⟩ :: ps, ?_, ?_, ?_⟩
      · rw [cutText, List.foldr_cons, ← cutText, htext]
        simp [Piece.text, Group.text]
      · rw [List.map_cons, List.map_cons, hbody]
      · rw [List.map_cons, hgaps, List.length_cons, List.replicate_succ]

/-- A configuration is cut at its commas. -/
theorem exists_config_cut {gs : List Group} (hfree : ∀ g ∈ gs, ')' ∉ g.body) :
    ∃ ps : List Piece, config gs = cutText ps (.done [] List.not_mem_nil)
      ∧ ps.map Piece.body = gs.map Group.body ∧ ps.map Piece.gap = commas ps.length := by
  cases gs with
  | nil => exact ⟨[], rfl, rfl, rfl⟩
  | cons g gs =>
      rw [List.forall_mem_cons] at hfree
      obtain ⟨ps, htext, hbody, hgaps⟩ := exists_pieces (by decide : '(' ∉ [',']) hfree.2
      have hlen := congrArg List.length hbody
      rw [List.length_map, List.length_map] at hlen
      refine ⟨⟨[], g.body, List.not_mem_nil, hfree.1⟩ :: ps, ?_, ?_, ?_⟩
      · rw [config_cons, cutText, List.foldr_cons, ← cutText, htext]
        simp [Piece.text, Group.text]
      · rw [List.map_cons, List.map_cons, hbody]
      · rw [List.map_cons, hgaps, List.length_cons, hlen, commas]

-- ============================================================== the round trip

/-- A mapping in decimal. -/
def groupOf (m : LcoreParams) : Group :=
  { port := Nat.toDigits 10 m.portId.toNat, job := [letter m.job]
    lcore := Nat.toDigits 10 m.lcoreId.toNat }

/-- The configuration of a list of mappings. -/
def render (l : List LcoreParams) : Arg := config (l.map groupOf)

theorem not_mem_toDigits {c : Char} (hc : ¬ c.isDigit) (n : ℕ) : c ∉ Nat.toDigits 10 n :=
  fun hmem => hc (Nat.isDigit_of_mem_toDigits (by decide) (by decide) hmem)

/-- At most three digits. -/
theorem length_toDigits_le (v : UInt8) : (Nat.toDigits 10 v.toNat).length ≤ 3 := by
  rw [Nat.length_toDigits_le_iff (by decide) (by decide)]
  exact Nat.lt_trans v.toNat_lt (by decide)

/-- A mapping as it is written down is read as itself. -/
theorem groupOk_groupOf (m : LcoreParams) : GroupOk (groupOf m).body m := by
  have hport := length_toDigits_le m.portId
  have hlcore := length_toDigits_le m.lcoreId
  have hlen : (groupOf m).body.length ≤ 9 := by
    simp only [Group.body, groupOf, List.length_append, List.length_cons, List.length_nil]
    omega
  have hsmall : (groupOf m).body.length % 2 ^ 32 = (groupOf m).body.length :=
    Nat.mod_eq_of_lt (by omega)
  refine ⟨?_, _, _, ?_, not_mem_toDigits (by decide) _, begins_toDigits _, begins_toDigits _⟩
  · rw [hsmall]
    exact Nat.lt_of_le_of_lt hlen (by decide)
  · rw [copied, hsmall, List.take_length]
    rfl

theorem groupOf_free (m : LcoreParams) : ')' ∉ (groupOf m).body := by
  have hletter : ')' ≠ letter m.job := by
    cases m.job with
    | rx => decide
    | tx => decide
  simp only [Group.body, groupOf, List.mem_append, List.mem_cons, List.not_mem_nil, or_false,
    not_or]
  exact ⟨not_mem_toDigits (by decide) _, by decide, hletter, by decide,
    not_mem_toDigits (by decide) _⟩

/-- The pieces of the rendering are the mappings. -/
theorem exists_render_cut (l : List LcoreParams) :
    ∃ ps : List Piece, render l = cutText ps (.done [] List.not_mem_nil)
      ∧ List.Forall₂ (fun p m => GroupOk p.body m) ps l := by
  have hfree : ∀ g ∈ l.map groupOf, ')' ∉ g.body := by
    intro g hg
    obtain ⟨m, -, rfl⟩ := List.mem_map.mp hg
    exact groupOf_free m
  obtain ⟨ps, htext, hbody, -⟩ := exists_config_cut hfree
  refine ⟨ps, htext, ?_⟩
  rw [List.map_map, ← List.forall₂_eq_eq_eq, List.forall₂_map_left_iff,
    List.forall₂_map_right_iff] at hbody
  apply hbody.imp
  rintro p m heq
  rw [heq]
  exact groupOk_groupOf m

/-- A rendered list is read back, if the array has room for it. -/
theorem parseConfig_render (hsplit : Splits rteStrsplit) (l : List LcoreParams)
    (herrno : s.errno = 0) :
    ∃ s' ret, parseConfig rteStrsplit (render l) s = some (s', ret)
      ∧ (l.length ≤ maxLcoreParams → ret = 0 ∧ s'.nbLcoreParams = l.length
        ∧ (List.range l.length).map s'.lcoreParamsArray = l ∧ s'.lcoreParams = true)
      ∧ (maxLcoreParams < l.length → ret = -1) := by
  obtain ⟨ps, htext, hok⟩ := exists_render_cut l
  have hlen := hok.length_eq
  rw [parseConfig, htext]
  by_cases hroom : l.length ≤ maxLcoreParams
  case pos =>
    have hrun := @parseConfigLoop_accepted _ { s with nbLcoreParams := 0 } hsplit _ _ hok herrno
      (by simp only; omega) (.done [] List.not_mem_nil) List.not_mem_nil
    have hentries := @pushAll_entries { s with nbLcoreParams := 0 } l
    rw [pushAll_nbLcoreParams, Nat.zero_add] at hentries
    refine ⟨_, _, hrun, fun _ => ⟨rfl, ?_, hentries, rfl⟩, fun hlt => absurd hroom (by omega)⟩
    exact (pushAll_nbLcoreParams l).trans (Nat.zero_add _)
  case neg =>
    obtain ⟨s', hrun⟩ := @parseConfigLoop_refused _ { s with nbLcoreParams := 0 } hsplit ps
      (.done [] List.not_mem_nil) herrno (Nat.zero_le _)
      (fun hle => absurd hle (by simp only; omega))
    exact ⟨s', -1, hrun, fun hle => absurd hle hroom, fun _ => rfl⟩

/-- Before the options are parsed. -/
def State.start : State :=
  { errno := 0, lcoreParamsArray := fun _ => ⟨0, .rx, 0⟩, lcoreParams := false
    nbLcoreParams := 0, portmask := 0, txRate := 0 }

/-- (0,R,1),(12,T,255). -/
theorem parseConfig_render_two :
    ∃ s' ret, parseConfig (fun str _ n delim => tokens delim n str)
        (render [⟨0, .rx, 1⟩, ⟨12, .tx, 255⟩]) State.start = some (s', ret)
      ∧ (2 ≤ maxLcoreParams → ret = 0 ∧ s'.nbLcoreParams = 2
        ∧ (List.range 2).map s'.lcoreParamsArray = [⟨0, .rx, 1⟩, ⟨12, .tx, 255⟩]
        ∧ s'.lcoreParams = true)
      ∧ (maxLcoreParams < 2 → ret = -1) :=
  parseConfig_render splits_tokens [⟨0, .rx, 1⟩, ⟨12, .tx, 255⟩] rfl

end PktSender.Options
