/-
What `__parse_config` takes that is no configuration.

A cut is a configuration where its gaps are the commas, nothing is behind the
last group and each group is numeral, letter, numeral (`wellFormed_iff`). The
loop takes a cut whatever is in its gaps and behind its numbers, so it tells
configurations from other strings where there is no such stray text
(`rejects_iff`).
-/
import PktSender.Options.Proofs.Config

namespace PktSender.Options

open CString (scan digitVal)
open Mapping (LcoreParams maxLcoreParams)

variable {rteStrsplit : Arg → ℕ → ℕ → Char → List Arg}

-- ============================================================== the language

/-- An unsigned integer constant, and nothing else, that fits a byte. -/
structure IsNumeral (str : Arg) : Prop where
  digit : ∃ c rest, str = c :: rest ∧ c.isDigit
  whole : ∃ n, scan 0 str = some n ∧ n.rest = [] ∧ n.mag ≤ 255

structure Group.Ok (g : Group) : Prop where
  port : IsNumeral g.port
  job : g.job = ['R'] ∨ g.job = ['T']
  lcore : IsNumeral g.lcore

/-- Groups of a numeral, a letter and a numeral with single commas between
them. -/
def WellFormed (str : Arg) : Prop := ∃ gs : List Group, str = config gs ∧ ∀ g ∈ gs, g.Ok

/-- A cut with no text that belongs to no group, number or letter. -/
structure NoStray (ps : List Piece) (t : Tail) : Prop where
  gaps : ps.map Piece.gap = commas ps.length
  tail : t.text = []
  groups : ∀ p ∈ ps, ∃ g : Group, g.Ok ∧ p.body = g.body

theorem IsNumeral.free {str : Arg} (h : IsNumeral str) {c : Char} (hc : digitVal c = 36) :
    c ∉ str := by
  obtain ⟨⟨d, rest, rfl, hd⟩, n, hscan, hrest, -⟩ := h
  exact fun hmem => CString.digitVal_of_scan hd hscan hrest c hmem hc

theorem Group.Ok.free {g : Group} (h : g.Ok) : ')' ∉ g.body := by
  have hjob : ')' ∉ g.job := by
    rcases h.job with hj | hj
    · rw [hj]
      decide
    · rw [hj]
      decide
  simp only [Group.body, List.mem_append, List.mem_cons, not_or]
  exact ⟨h.port.free (by decide), by decide, hjob, by decide, h.lcore.free (by decide)⟩

/-- Pieces are their gaps and their bodies. -/
theorem pieces_ext {ps qs : List Piece} (hgap : ps.map Piece.gap = qs.map Piece.gap)
    (hbody : ps.map Piece.body = qs.map Piece.body) : ps = qs := by
  induction ps generalizing qs with
  | nil => exact (List.map_eq_nil_iff.mp hbody.symm).symm
  | cons p ps ih =>
      cases qs with
      | nil => cases hbody
      | cons q qs =>
          rw [List.map_cons, List.map_cons, List.cons.injEq] at hgap hbody
          rw [Piece.ext hgap.1 hbody.1, ih hgap.2 hbody.2]

/-- The grammar of the usage text is the lax one without stray text. -/
theorem wellFormed_iff (ps : List Piece) (t : Tail) :
    WellFormed (cutText ps t) ↔ NoStray ps t := by
  constructor
  · rintro ⟨gs, htext, hok⟩
    obtain ⟨qs, hcut, hbody, hgap⟩ := exists_config_cut fun g hg => (hok g hg).free
    obtain ⟨rfl, htail⟩ := cutText_inj (htext.trans hcut)
    refine ⟨hgap, htail, fun p hp => ?_⟩
    have hmem : p.body ∈ gs.map Group.body := hbody ▸ List.mem_map_of_mem hp
    obtain ⟨g, hg, heq⟩ := List.mem_map.mp hmem
    exact ⟨g, hok g hg, heq.symm⟩
  · rintro ⟨hgap, htail, hgroups⟩
    -- one group for each piece
    obtain ⟨gs, hbody, hok⟩ : ∃ gs : List Group,
        ps.map Piece.body = gs.map Group.body ∧ ∀ g ∈ gs, g.Ok := by
      clear hgap
      induction ps with
      | nil => exact ⟨[], rfl, List.forall_mem_nil _⟩
      | cons p ps ih =>
          rw [List.forall_mem_cons] at hgroups
          obtain ⟨g, hg, hp⟩ := hgroups.1
          obtain ⟨gs, hbody, hok⟩ := ih hgroups.2
          refine ⟨g :: gs, ?_, List.forall_mem_cons.mpr ⟨hg, hok⟩⟩
          rw [List.map_cons, List.map_cons, hp, hbody]
    obtain ⟨qs, hcut, hbody', hgap'⟩ := exists_config_cut fun g hg => (hok g hg).free
    have hlen := congrArg List.length (hbody.trans hbody'.symm)
    rw [List.length_map, List.length_map] at hlen
    have hpieces : ps = qs :=
      pieces_ext (by rw [hgap, hgap', hlen]) (hbody.trans hbody'.symm)
    refine ⟨gs, ?_, hok⟩
    rw [hcut, hpieces, cutText, cutText, htail]
    rfl

-- ============================================================= what is taken

/-- A string that is no configuration yields -1. -/
def RejectsOthers (rteStrsplit : Arg → ℕ → ℕ → Char → List Arg) (str : Arg) : Prop :=
  ∀ s : State, s.errno = 0 → ∃ s' ret, parseConfig rteStrsplit str s = some (s', ret)
    ∧ (ret = 0 → WellFormed str) ∧ (¬ WellFormed str → ret = -1)

/-- The parser accepts what the lax grammar does, -/
theorem parseConfig_accepted (hsplit : Splits rteStrsplit) {ps : List Piece} {t : Tail}
    (h : Accepted ps t) {s : State} (herrno : s.errno = 0) :
    ∃ s', parseConfig rteStrsplit (cutText ps t) s = some (s', 0) := by
  obtain ⟨hroom, hgroups, hdone⟩ := h
  obtain ⟨ms, hok⟩ : ∃ ms, List.Forall₂ (fun p m => GroupOk p.body m) ps ms := by
    clear hroom
    induction ps with
    | nil => exact ⟨[], .nil⟩
    | cons p ps ih =>
        rw [List.forall_mem_cons] at hgroups
        obtain ⟨m, hm⟩ := hgroups.1
        obtain ⟨ms, hms⟩ := ih hgroups.2
        exact ⟨m :: ms, .cons hm hms⟩
  exact ⟨_, @parseConfigLoop_accepted _ { s with nbLcoreParams := 0 } hsplit ps ms hok herrno
    (by simpa using hroom) t hdone⟩

/-- and nothing else. -/
theorem parseConfig_refused (hsplit : Splits rteStrsplit) {ps : List Piece} {t : Tail}
    (h : ¬ Accepted ps t) {s : State} (herrno : s.errno = 0) :
    ∃ s', parseConfig rteStrsplit (cutText ps t) s = some (s', -1) := by
  apply @parseConfigLoop_refused _ { s with nbLcoreParams := 0 } hsplit ps t herrno
    (Nat.zero_le _)
  intro hroom hgroups
  by_contra hdone
  exact h ⟨by simpa using hroom, hgroups, hdone⟩

/-- What is taken is to be a configuration. -/
theorem wellFormed_of_rejects (hsplit : Splits rteStrsplit) {str : Arg} {ps : List Piece}
    {t : Tail} (hacc : Accepted ps t) (hcut : str = cutText ps t)
    (h : RejectsOthers rteStrsplit str) : WellFormed str := by
  subst hcut
  have hstart : State.start.errno = 0 := rfl
  obtain ⟨s', hrun⟩ := parseConfig_accepted hsplit hacc hstart
  obtain ⟨s'', ret, hrun', hwf, -⟩ := h State.start hstart
  obtain ⟨-, hret⟩ := Prod.mk.inj (Option.some.inj (hrun.symm.trans hrun'))
  exact hwf hret.symm

/-- `__parse_config` takes nothing but configurations where the groups it takes
have no stray text between, behind and in them. -/
theorem rejects_iff (hsplit : Splits rteStrsplit) (str : Arg) :
    RejectsOthers rteStrsplit str
      ↔ ∀ ps t, str = cutText ps t → Accepted ps t → NoStray ps t := by
  refine ⟨?_, ?_⟩
  · rintro h ps t rfl hacc
    exact (wellFormed_iff ps t).mp (wellFormed_of_rejects hsplit hacc rfl h)
  · intro h s herrno
    obtain ⟨ps, t, rfl⟩ := exists_cut str
    by_cases hacc : Accepted ps t
    · obtain ⟨s', hrun⟩ := parseConfig_accepted hsplit hacc herrno
      have hwf := (wellFormed_iff ps t).mpr (h ps t rfl hacc)
      exact ⟨s', 0, hrun, fun _ => hwf, fun hnot => absurd hwf hnot⟩
    · obtain ⟨s', hrun⟩ := parseConfig_refused hsplit hacc herrno
      exact ⟨s', -1, hrun, fun hret => absurd hret (by decide), fun _ => rfl⟩

/-- foo(1,R,2x). -/
def strayText : Arg := ['f', 'o', 'o', '(', '1', ',', 'R', ',', '2', 'x', ')']

theorem rejects_iff_stray :
    RejectsOthers (fun str _ n delim => tokens delim n str) strayText
      ↔ ∀ ps t, strayText = cutText ps t → Accepted ps t → NoStray ps t :=
  rejects_iff splits_tokens strayText

/-- It is taken for the mapping (1,R,2). -/
theorem takes_stray : ¬ RejectsOthers (fun str _ n delim => tokens delim n str) strayText := by
  have hok : GroupOk ['1', ',', 'R', ',', '2', 'x'] ⟨1, .rx, 2⟩ :=
    ⟨by decide, ['1'], ['2', 'x'], by decide, by decide, ⟨by decide, by decide, by decide⟩,
      ⟨by decide, by decide, by decide⟩⟩
  have hacc : Accepted [⟨['f', 'o', 'o'], ['1', ',', 'R', ',', '2', 'x'], by decide, by decide⟩]
      (.done [] List.not_mem_nil) :=
    ⟨by decide, List.forall_mem_singleton.mpr ⟨_, hok⟩, List.not_mem_nil⟩
  intro h
  -- a configuration starts with a bracket
  obtain ⟨gs, htext, -⟩ := wellFormed_of_rejects splits_tokens hacc rfl h
  cases gs with
  | nil => cases htext
  | cons g gs =>
      rw [config_cons] at htext
      exact absurd (List.cons.inj htext).1 (by decide)

end PktSender.Options
