/-
When `writen` writes its buffer once.

The loop moves `buf` past what was written and takes it off `ret`, but asks
for `len` units again each time. After a part of the buffer that is more than
what is left: the next call reads behind the buffer, and one that writes all
it is asked to takes `ret` below zero. So the loop is right as long as it
never goes on from a part: every `fwrite` before the first complete one
writes nothing (`ZeroUntilFull`). Then there are two states only, the first
and the last (`run_start_or_finished`).
-/
import PktSender.Tracer.Basic

namespace PktSender.Tracer

variable {α : Type} {mem : ℕ → α} {len : UInt64} {fp : List α} {rets : List Fwrite}

-- ================================================================ the runs

/-- The buffer of a call: the first `len` units from `buf` on. -/
def bufferOf (mem : ℕ → α) (len : UInt64) : List α := (List.range len.toNat).map mem

/-- The state in which `writen` starts. -/
def WritenState.start (fp : List α) (len : UInt64) : WritenState α :=
  { buf := 0, ret := len, file := fp }

/-- A round as a step, with what its `fwrite` does. -/
def writenStep (mem : ℕ → α) (len : UInt64) (s : WritenState α) (r : Fwrite) :
    Option (WritenState α) :=
  if s.ret > 0 then some (s.round mem len r) else none

/-- What the loop returns is the file at the end of a run that leaves
nothing to write. -/
theorem writenLoop_eq_some {s : WritenState α} {file : List α} :
    writenLoop mem len rets s = some file
      ↔ ∃ rs s', rs <+: rets ∧ Lts.run (writenStep mem len) s rs = some s'
          ∧ s'.ret = 0 ∧ s'.file = file := by
  induction rets generalizing s with
  | nil =>
      unfold writenLoop
      constructor
      · intro hloop
        split at hloop
        next => cases hloop
        next hret =>
          refine ⟨[], s, List.prefix_refl _, rfl, ?_, Option.some.inj hloop⟩
          exact UInt64.le_zero_iff.mp (UInt64.not_lt.mp hret)
      · intro hex
        obtain ⟨rs, s', hrs, hrun, hzero, hfile⟩ := hex
        cases List.prefix_nil.mp hrs
        cases hrun
        rw [if_neg (by rw [hzero]; decide), hfile]
  | cons r rets ih =>
      unfold writenLoop
      by_cases hret : s.ret > 0
      · have hstep : writenStep mem len s r = some (s.round mem len r) := if_pos hret
        rw [if_pos hret, ih]
        constructor
        · intro hex
          obtain ⟨rs, s', hrs, hrun, hend⟩ := hex
          refine ⟨r :: rs, s', List.cons_prefix_cons.mpr ⟨rfl, hrs⟩, ?_, hend⟩
          rw [Lts.run_cons, hstep, Option.bind_some, hrun]
        · intro hex
          obtain ⟨rs, s', hrs, hrun, hzero, hfile⟩ := hex
          cases rs with
          | nil =>
              cases hrun
              rw [hzero] at hret
              exact absurd hret (by decide)
          | cons r' rs =>
              obtain ⟨rfl, hrest⟩ := List.cons_prefix_cons.mp hrs
              rw [Lts.run_cons, hstep, Option.bind_some] at hrun
              exact ⟨rs, s', hrest, hrun, hzero, hfile⟩
      · rw [if_neg hret]
        constructor
        · intro hfile
          refine ⟨[], s, List.nil_prefix, rfl, ?_, Option.some.inj hfile⟩
          exact UInt64.le_zero_iff.mp (UInt64.not_lt.mp hret)
        · intro hex
          obtain ⟨rs, s', hrs, hrun, -, hfile⟩ := hex
          cases rs with
          | nil =>
              cases hrun
              rw [hfile]
          | cons r' rs =>
              rw [Lts.run_cons, writenStep, if_neg hret] at hrun
              cases hrun

-- ============================================================ the property

/-- A state of a run that writes the buffer once: a first part of the buffer
is written, what is left is what remains of it, and the next call is given
nothing else. -/
structure WritesOnce (mem : ℕ → α) (len : UInt64) (fp : List α) (s : WritenState α) :
    Prop where
  written : ∃ done, done <+: bufferOf mem len ∧ s.file = fp ++ done
  left : s.buf + s.ret.toNat = len.toNat
  inside : s.ret > 0 → s.buf + len.toNat ≤ len.toNat

/-- Until one is complete, the calls write nothing. -/
def ZeroUntilFull (len : UInt64) : List Fwrite → Prop
  | [] => True
  | r :: rets => r.written len = len ∨ (r.written len = 0 ∧ ZeroUntilFull len rets)

theorem ZeroUntilFull.initial {rs : List Fwrite} (h : ZeroUntilFull len rets)
    (hpre : rs <+: rets) : ZeroUntilFull len rs := by
  induction rs generalizing rets with
  | nil => trivial
  | cons r rs ih =>
      obtain ⟨rest, rfl⟩ := hpre
      cases h with
      | inl hfull => exact .inl hfull
      | inr hzero => exact .inr ⟨hzero.1, ih hzero.2 (List.prefix_append _ _)⟩

theorem written_le (len : UInt64) (r : Fwrite) : (r.written len).toNat ≤ len.toNat := by
  cases r with
  | full => exact Nat.le_refl _
  | short n =>
      by_cases hle : n ≤ len
      · rw [Fwrite.written, show min n len = n from if_pos hle]
        exact UInt64.le_iff_toNat_le.mp hle
      · rw [Fwrite.written, show min n len = len from if_neg hle]

-- ============================================================= two states

/-- The state in which it returns. -/
def WritenState.finished (mem : ℕ → α) (fp : List α) (len : UInt64) : WritenState α :=
  { buf := len.toNat, ret := 0, file := fp ++ bufferOf mem len }

/-- A call that writes nothing changes nothing. -/
theorem round_zero {r : Fwrite} (hzero : r.written len = 0) (s : WritenState α) :
    s.round mem len r = s := by
  simp [WritenState.round, hzero]

/-- The first call can write everything. -/
theorem round_full {r : Fwrite} (hfull : r.written len = len) :
    (WritenState.start fp len).round mem len r = .finished mem fp len := by
  simp [WritenState.round, WritenState.start, WritenState.finished, bufferOf, hfull]

theorem run_start_or_finished {s : WritenState α} (h : ZeroUntilFull len rets)
    (hrun : Lts.run (writenStep mem len) (.start fp len) rets = some s) :
    s = .start fp len ∨ s = .finished mem fp len := by
  induction rets with
  | nil =>
      cases hrun
      exact .inl rfl
  | cons r rets ih =>
      obtain ⟨s₁, hstep, hrest⟩ := Lts.run_cons_eq_some.mp hrun
      unfold writenStep at hstep
      split at hstep
      next =>
        cases hstep
        cases h with
        | inl hfull =>
            -- no round follows a complete one
            rw [round_full hfull] at hrest
            cases rets with
            | nil =>
                cases hrest
                exact .inr rfl
            | cons r' rets => cases hrest
        | inr hzero =>
            rw [round_zero hzero.1] at hrest
            exact ih hzero.2 hrest
      next => cases hstep

theorem writesOnce_start : WritesOnce mem len fp (.start fp len) where
  written := ⟨[], List.nil_prefix, (List.append_nil fp).symm⟩
  left := Nat.zero_add _
  inside := fun _ => (Nat.zero_add _).le

theorem writesOnce_finished : WritesOnce mem len fp (.finished mem fp len) where
  written := ⟨_, List.prefix_refl _, rfl⟩
  left := Nat.add_zero _
  inside := fun hret => absurd hret (by simp [WritenState.finished])

/-- A first call that writes a part is followed by one that reads behind the
buffer. -/
theorem not_writesOnce_part {r : Fwrite} (hne : r.written len ≠ len)
    (hpos : r.written len ≠ 0) :
    ¬ WritesOnce mem len fp ((WritenState.start fp len).round mem len r) := by
  intro h
  have hle := written_le len r
  have hlt : (r.written len).toNat ≠ len.toNat := fun heq => hne (UInt64.toNat_inj.mp heq)
  have hnat : (r.written len).toNat ≠ 0 := fun heq => hpos (UInt64.toNat_inj.mp heq)
  have hleft : (len - r.written len).toNat = len.toNat - (r.written len).toNat :=
    UInt64.toNat_sub_of_le _ _ (UInt64.le_iff_toNat_le.mpr hle)
  have hret : len - r.written len > 0 := by
    rw [gt_iff_lt, UInt64.lt_iff_toNat_lt, hleft]
    show 0 < _
    omega
  have hinside : 0 + (r.written len).toNat + len.toNat ≤ len.toNat := h.inside hret
  omega

/-- When `writen` writes its buffer once, and no other byte: in every run, and
when it returns, exactly if no call goes on from a part of the buffer. -/
theorem writen_once_iff (mem : ℕ → α) (len : UInt64) (fp : List α) (rets : List Fwrite) :
    ((∀ rs, rs <+: rets →
        ∀ s, Lts.run (writenStep mem len) (.start fp len) rs = some s →
          WritesOnce mem len fp s)
      ∧ ∀ file, writen rets fp mem len = some file → file = fp ++ bufferOf mem len)
      ↔ ZeroUntilFull len rets := by
  constructor
  · intro hall
    obtain ⟨honce, -⟩ := hall
    induction rets with
    | nil => trivial
    | cons r rets ih =>
        by_cases hfull : r.written len = len
        · exact .inl hfull
        · have hpos : len > 0 := by
            by_contra hzero
            have hle := written_le len r
            obtain rfl := UInt64.le_zero_iff.mp (UInt64.not_lt.mp hzero)
            exact hfull (UInt64.toNat_inj.mp (Nat.le_zero.mp hle))
          have hstep : writenStep mem len (.start fp len) r
              = some ((WritenState.start fp len).round mem len r) := if_pos hpos
          by_cases hzero : r.written len = 0
          · refine .inr ⟨hzero, ih fun rs hrs s hrun => ?_⟩
            refine honce (r :: rs) (List.cons_prefix_cons.mpr ⟨rfl, hrs⟩) s ?_
            rw [Lts.run_cons, hstep, Option.bind_some, round_zero hzero, hrun]
          · refine absurd (honce [r] ?_ _ ?_) (not_writesOnce_part hfull hzero)
            · exact List.cons_prefix_cons.mpr ⟨rfl, List.nil_prefix⟩
            · rw [Lts.run_cons, hstep]
              rfl
  · intro h
    constructor
    · intro rs hrs s hrun
      cases run_start_or_finished (h.initial hrs) hrun with
      | inl hstart => exact hstart ▸ writesOnce_start
      | inr hfinished => exact hfinished ▸ writesOnce_finished
    · intro file hfile
      obtain ⟨rs, s, hrs, hrun, hzero, rfl⟩ := writenLoop_eq_some.mp hfile
      cases run_start_or_finished (h.initial hrs) hrun with
      | inl hstart =>
          -- an empty buffer
          subst hstart
          obtain rfl : len = 0 := hzero
          exact (List.append_nil fp).symm
      | inr hfinished => exact congrArg WritenState.file hfinished

/-- One unit of two, and then as many as the call asks for. -/
theorem writen_part_overruns :
    ∃ s, Lts.run (writenStep id 2) (.start [] 2) [.short 1, .full] = some s
      ∧ s.file = [0, 1, 2] ∧ s.ret = 0xFFFFFFFFFFFFFFFF ∧ ¬ WritesOnce id 2 [] s := by
  refine ⟨_, rfl, rfl, rfl, ?_⟩
  intro h
  obtain ⟨done, hpre, hfile⟩ := h.written
  have hlen := hpre.length_le
  rw [← show _ = done from hfile] at hlen
  exact absurd hlen (by decide)

end PktSender.Tracer
