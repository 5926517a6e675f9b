/-
Where the dump command leaves its arrays.

A file name goes to `fin` at its position, whether or not the file can be
opened, and so does the loop that closes the files after an error: eleven
names are too many on every path. A location goes to `mac_loc` before
anything else is done with its record, and the columns written run up to it:
one location outside the arrays is enough, as some trace is always there by
then (`trace_bounds`).
-/
import PktSender.Dump.Command
import PktSender.Dump.Proofs.Leak

namespace PktSender.Dump

open PktSender.Ring PktSender.Cuckoo

-- ============================================================== the inputs

/-- A fold of partial steps each defined for the numbers below a bound. -/
theorem foldlM_isSome {σ : Type} {step : σ → Nat → Option σ} {bound : Nat}
    (hstep : ∀ s i, (step s i).isSome ↔ i < bound) (l : List Nat) (s : σ) :
    (l.foldlM step s).isSome ↔ ∀ i ∈ l, i < bound := by
  induction l generalizing s with
  | nil => exact iff_of_true rfl (List.forall_mem_nil _)
  | cons i l ih =>
      rw [List.foldlM_cons, List.forall_mem_cons, ← hstep s i]
      cases hs : step s i with
      | none => exact iff_of_false (by simp) (by simp)
      | some s' =>
          rw [and_iff_right (by rfl)]
          exact ih s'

theorem freeOne_isSome (fin : Inputs) (i : Nat) :
    (freeOne fin i).isSome ↔ i < fileMax := by
  unfold freeOne Inputs.read Inputs.write
  by_cases hi : i < fileMax
  · rw [dif_pos hi, dif_pos hi, Option.bind_some]
    refine iff_of_true ?_ hi
    split
    · rfl
    · rfl
  · rw [dif_neg hi]
    exact iff_of_false (by simp) hi

/-- The loop behind `free_input` needs no more files than there is room
for. -/
theorem freeInputs_isSome (fin : Inputs) (nbInput : Nat) :
    (freeInputs fin nbInput).isSome ↔ nbInput ≤ fileMax := by
  unfold freeInputs
  rw [foldlM_isSome freeOne_isSome]
  constructor
  · intro hall
    by_contra hgt
    exact absurd (hall fileMax (List.mem_range.mpr (by omega))) (Nat.lt_irrefl _)
  · intro hle i hi
    exact Nat.lt_of_lt_of_le (List.mem_range.mp hi) hle

/-- The contents of the operands from the `i`-th on, if all can be opened. -/
def openedFiles (fopenIn : Nat → Arg → Option File) :
    Nat → List Arg → Option (List File)
  | _, [] => some []
  | i, name :: names =>
      (fopenIn i name).bind fun file =>
        (openedFiles fopenIn (i + 1) names).map (file :: ·)

/-- `fin` with these files at its beginning. -/
def Inputs.ofFiles (files : List File) : Inputs := fun i => files[i.val]?

theorem Inputs.write_ofFiles {files : List File} (hlt : files.length < fileMax)
    (file : File) :
    (Inputs.ofFiles files).write files.length (some file)
      = some (Inputs.ofFiles (files ++ [file])) := by
  rw [Inputs.write, dif_pos hlt, Option.some.injEq]
  funext i
  by_cases hi : i = ⟨files.length, hlt⟩
  · subst hi
    rw [Function.update_self, Inputs.ofFiles, List.getElem?_append_right (Nat.le_refl _)]
    simp
  · rw [Function.update_of_ne hi, Inputs.ofFiles, Inputs.ofFiles]
    have hne : i.val ≠ files.length := fun h => hi (Fin.ext h)
    rcases Nat.lt_or_gt_of_ne hne with hlt' | hgt
    · rw [List.getElem?_append_left hlt']
    · rw [List.getElem?_eq_none hgt.le, List.getElem?_eq_none]
      rw [List.length_append, List.length_singleton]
      omega

section Open

variable {fopenIn : Nat → Arg → Option File}

/-- All operands can be opened, and there is room for them. -/
theorem openInputs_all {names : List Arg} {files done : List File}
    (hopen : openedFiles fopenIn done.length names = some files)
    (hle : done.length + names.length ≤ fileMax) :
    openInputs fopenIn (.ofFiles done) done.length names
      = some (.ofFiles (done ++ files), true) := by
  induction names generalizing files done with
  | nil =>
      cases hopen
      rw [List.append_nil]
      rfl
  | cons name names ih =>
      obtain ⟨file, hfile, hmap⟩ := Option.bind_eq_some_iff.mp hopen
      obtain ⟨rest, hrest, rfl⟩ := Option.map_eq_some_iff.mp hmap
      rw [List.length_cons] at hle
      have hlen : (done ++ [file]).length = done.length + 1 := by simp
      rw [← hlen] at hrest
      have htail := ih hrest (by omega)
      rw [hlen, List.append_assoc] at htail
      rw [openInputs, hfile, Inputs.write_ofFiles (by omega), Option.bind_some]
      exact htail

/-- One cannot, and there is room. -/
theorem openInputs_failed {names : List Arg} {fin : Inputs} {i : Nat}
    (hopen : openedFiles fopenIn i names = none) (hle : i + names.length ≤ fileMax) :
    ∃ fin', openInputs fopenIn fin i names = some (fin', false) := by
  induction names generalizing fin i with
  | nil => cases hopen
  | cons name names ih =>
      rw [List.length_cons] at hle
      rw [openInputs, Inputs.write, dif_pos (by omega), Option.bind_some]
      rw [openedFiles] at hopen
      cases hfile : fopenIn i name with
      | none => exact ⟨_, rfl⟩
      | some file =>
          rw [hfile, Option.bind_some, Option.map_eq_none_iff] at hopen
          exact ih hopen (by omega)

/-- There is no room for all: the loop runs out of the array, unless an error
stops it first. -/
theorem openInputs_many {names : List Arg} {fin fin' : Inputs} {i : Nat}
    {opened : Bool} (hi : i ≤ fileMax) (hgt : fileMax < i + names.length)
    (hopen : openInputs fopenIn fin i names = some (fin', opened)) :
    opened = false := by
  induction names generalizing fin i with
  | nil => exact absurd hgt (Nat.not_lt_of_le hi)
  | cons name names ih =>
      rw [List.length_cons] at hgt
      rw [openInputs, Inputs.write] at hopen
      split at hopen
      next hlt =>
        rw [Option.bind_some] at hopen
        cases hfile : fopenIn i name with
        | none =>
            rw [hfile] at hopen
            exact (Prod.mk.inj (Option.some.inj hopen)).2.symm
        | some file =>
            rw [hfile] at hopen
            exact ih hlt (by omega) hopen
      next => cases hopen

end Open

/-- Reading a file closes it, and touches no other. -/
theorem loadOne_eq {s : DumpState} {fin : Inputs} {i : Fin fileMax} {file : File}
    (hfile : fin i = some file) :
    loadOne (s, fin) i.val
      = (readRecord s file).map (·, Function.update fin i none) := by
  have hread : fin.read i.val = some (some file) := by
    rw [Inputs.read, dif_pos i.isLt, ← hfile]
  unfold loadOne
  simp only [hread, Option.bind_some]
  cases readRecord s file with
  | none => rfl
  | some s' =>
      rw [Option.bind_some, Inputs.write, dif_pos i.isLt]
      rfl

/-- The loop over the files reads what was opened. -/
theorem loadInputs_eq {files : List File} (hle : files.length ≤ fileMax)
    (s : DumpState) :
    (loadInputs s (.ofFiles files) files.length).map Prod.fst = readFiles s files := by
  -- the files from any one on, whatever became of those before it
  have hfrom : ∀ (rest done : List File) (s : DumpState) (fin : Inputs),
      done.length + rest.length ≤ fileMax →
      (∀ i : Fin fileMax, done.length ≤ i.val → fin i = (done ++ rest)[i.val]?) →
      ((List.range' done.length rest.length).foldlM loadOne (s, fin)).map Prod.fst
        = readFiles s rest := by
    intro rest
    induction rest with
    | nil => intro done s fin _ _; rfl
    | cons file rest ih =>
        intro done s fin hle hfin
        rw [List.length_cons] at hle
        have hlt : done.length < fileMax := by omega
        have hfile : fin ⟨done.length, hlt⟩ = some file := by
          rw [hfin _ (Nat.le_refl _), List.getElem?_append_right (Nat.le_refl _)]
          simp
        rw [List.length_cons, List.range'_succ, List.foldlM_cons, loadOne_eq hfile,
          readFiles, List.foldlM_cons]
        cases readRecord s file with
        | none => rfl
        | some s' =>
            have hlen : (done ++ [file]).length = done.length + 1 := by simp
            have htail := ih (done ++ [file]) s' (Function.update fin ⟨_, hlt⟩ none)
              (by omega) ?_
            · rw [hlen] at htail
              exact htail
            · intro i hi
              rw [hlen] at hi
              have hne : i ≠ ⟨done.length, hlt⟩ := by
                intro heq
                rw [heq] at hi
                exact absurd hi (Nat.not_succ_le_self _)
              rw [Function.update_of_ne hne, hfin i (by omega), List.append_assoc]
              rfl
  rw [loadInputs, List.range_eq_range']
  refine hfrom files [] s _ ?_ fun _ _ => rfl
  rw [List.length_nil, Nat.zero_add]
  exact hle

-- ============================================================= the records

section Records

variable {s s' s₀ : DumpState} {avail : List UInt32}

/-- What is known of the largest location after reading records. -/
structure Located (s₀ s : DumpState) (xs : List (RecordFmt × UInt32)) : Prop where
  mono : s₀.macLoc.toNat ≤ s.macLoc.toNat
  above : ∀ x ∈ xs, x.1.location.toNat ≤ s.macLoc.toNat
  seen : s.macLoc = s₀.macLoc ∨ ∃ x ∈ xs, s.macLoc = x.1.location
  keys : s₀.traceTbl.boundKeys.length ≤ s.traceTbl.boundKeys.length
  inside : ∀ x ∈ xs, x.1.location.toNat < locMax ∨ 0 < s.traceTbl.boundKeys.length

theorem Located.refl (s : DumpState) : Located s s [] :=
  ⟨Nat.le_refl _, List.forall_mem_nil _, .inl rfl, Nat.le_refl _, List.forall_mem_nil _⟩

/-- One record, and then the rest. -/
theorem Located.cons {s₁ : DumpState} {x : RecordFmt × UInt32}
    {xs : List (RecordFmt × UInt32)} (h : Located s₀ s₁ [x]) (hs : Located s₁ s xs) :
    Located s₀ s (x :: xs) := by
  have hx : x ∈ [x] := List.mem_singleton_self x
  refine ⟨h.mono.trans hs.mono, List.forall_mem_cons.mpr ⟨?_, hs.above⟩, ?_,
    h.keys.trans hs.keys, List.forall_mem_cons.mpr ⟨?_, hs.inside⟩⟩
  · exact (h.above x hx).trans hs.mono
  · rcases hs.seen with hsame | ⟨y, hy, heq⟩
    · rcases h.seen with hsame' | ⟨y, hy, heq⟩
      · exact .inl (hsame.trans hsame')
      · rw [List.mem_singleton] at hy
        subst hy
        exact .inr ⟨y, List.mem_cons_self, hsame.trans heq⟩
    · exact .inr ⟨y, List.mem_cons_of_mem _ hy, heq⟩
  · exact (h.inside x hx).imp_right fun hpos => hpos.trans_le hs.keys

/-- One turn of the reading loop takes the location into account before the
record is added. -/
theorem readOne_located {x : RecordFmt × UInt32} {ret : Int} (hc : Counted s avail)
    (hread : readOne s x = some (s', ret)) :
    (∃ avail', Counted s' avail') ∧ Located s s' [x] := by
  obtain ⟨hc', -, hpass⟩ := addRecord_counts (hc.setMacLoc _) hread
  have hmac : s'.macLoc
      = if x.1.location > s.macLoc then x.1.location else s.macLoc := hpass.macLoc
  refine ⟨hc', ?_⟩
  by_cases hgt : x.1.location > s.macLoc
  · rw [if_pos hgt] at hmac
    have hle : s.macLoc.toNat ≤ x.1.location.toNat :=
      (UInt8.lt_iff_toNat_lt.mp hgt).le
    exact ⟨hmac ▸ hle, List.forall_mem_singleton.mpr (hmac ▸ Nat.le_refl _),
      .inr ⟨x, List.mem_singleton_self x, hmac⟩, hpass.keys,
      List.forall_mem_singleton.mpr hpass.inside⟩
  · rw [if_neg hgt] at hmac
    have hle : x.1.location.toNat ≤ s.macLoc.toNat :=
      Nat.le_of_not_lt fun hlt => hgt (UInt8.lt_iff_toNat_lt.mpr hlt)
    exact ⟨hmac ▸ Nat.le_refl _, List.forall_mem_singleton.mpr (hmac ▸ hle), .inl hmac,
      hpass.keys, List.forall_mem_singleton.mpr hpass.inside⟩

/-- Any number of turns. -/
theorem trace_located {xs : List (RecordFmt × UInt32)} {rets : List Int}
    (hc : Counted s₀ avail) (htrace : Lts.trace readOne s₀ xs = some (s, rets)) :
    (∃ avail', Counted s avail') ∧ Located s₀ s xs := by
  induction xs generalizing s₀ avail rets with
  | nil =>
      cases htrace
      exact ⟨⟨avail, hc⟩, Located.refl s⟩
  | cons x xs ih =>
      obtain ⟨s₁, ret, rets', hread, hrest, -⟩ := Lts.trace_cons_eq_some.mp htrace
      obtain ⟨⟨avail₁, hc₁⟩, hfirst⟩ := readOne_located hc hread
      obtain ⟨hc₂, hlater⟩ := ih hc₁ hrest
      exact ⟨hc₂, hfirst.cons hlater⟩

end Records

-- =============================================================== the output

/-- A map of partial functions is defined if all its values are. -/
theorem mapM_isSome {α β : Type} {f : α → Option β} (l : List α) :
    (l.mapM f).isSome ↔ ∀ a ∈ l, (f a).isSome := by
  induction l with
  | nil => exact iff_of_true rfl (List.forall_mem_nil _)
  | cons a l ih =>
      rw [List.mapM_cons, List.forall_mem_cons, ← ih]
      cases f a with
      | none => exact iff_of_false (by simp) (by simp)
      | some b =>
          rw [and_iff_right (by rfl)]
          cases l.mapM f with
          | none => exact iff_of_false (by simp) (by simp)
          | some bs => exact iff_of_true rfl rfl

theorem column_isSome (t : TraceData) (i : Nat) :
    (t.column i).isSome ↔ i < locMax := by
  unfold TraceData.column
  split
  next hi => exact iff_of_true rfl hi
  next hi => exact iff_of_false (by simp) hi

/-- A line has all its columns if the last one is inside the arrays. -/
theorem dumpRow_isSome (macLoc : UInt8) (row : Row) :
    (dumpRow macLoc row).isSome ↔ macLoc.toNat < locMax := by
  unfold dumpRow
  rw [mapM_isSome]
  constructor
  · intro hall
    exact (column_isSome _ _).mp (hall _ (List.mem_range.mpr (Nat.lt_succ_self _)))
  · intro hlt i hi
    rw [column_isSome]
    exact Nat.lt_of_le_of_lt (Nat.le_of_lt_succ (List.mem_range.mp hi)) hlt

/-- One trace is enough to ask for every column. -/
theorem dumpRows_isSome {s : DumpState} {avail : List UInt32} (hi : DumpInv s avail) :
    (dumpRows s).isSome ↔ s.traceTbl.boundKeys.length = 0 ∨ s.macLoc.toNat < locMax := by
  have hlen : (dumpAllTraces s).length = s.traceTbl.boundKeys.length := by
    rw [← List.length_map (f := Row.id), ids_dumpAllTraces hi, List.length_map]
  unfold dumpRows
  rw [mapM_isSome, ← hlen]
  cases hrows : dumpAllTraces s with
  | nil => exact iff_of_true (List.forall_mem_nil _) (.inl rfl)
  | cons row rows =>
      constructor
      · intro hall
        exact .inr ((dumpRow_isSome _ row).mp (hall row List.mem_cons_self))
      · intro hor row' _
        rw [dumpRow_isSome]
        exact hor.resolve_left (by simp)

section Init

variable {mmapOk : UInt32 → Bool} {env env' : CreateEnv} {s₀ s : DumpState}

/-- `__init_trace_tbl` comes back, with an error or with both structures. -/
theorem init_ne_none : initTraceTbl mmapOk env env' ≠ none := by
  unfold initTraceTbl
  split
  next hnone => exact absurd hnone (create_ne_none (exactSize_bounds exactSize_dump).1)
  next => intro h; cases h
  next =>
    split
    next => intro h; cases h
    next r hr =>
      obtain ⟨r', hpop, -⟩ := populateIndices_spec hr
      rw [hpop]
      intro h
      cases h

/-- The files are read and the traces written inside the arrays exactly when
every record's location is. -/
theorem read_and_dump_isSome (hinit : initTraceTbl mmapOk env env' = some (.ok s₀))
    (files : List File) :
    ((readFiles s₀ files).bind dumpRows).isSome
      ↔ ∀ x ∈ files.flatten, x.1.location.toNat < locMax := by
  obtain ⟨hc₀, -⟩ := init_counted hinit
  have hzero : s₀.macLoc = 0 := by
    obtain ⟨tbl, r, r', -, -, -, rfl⟩ := init_cases hinit
    rfl
  rw [readFiles_eq]
  constructor
  · intro hsome x hx
    by_contra hout
    cases htrace : Lts.trace readOne s₀ files.flatten with
    | none =>
        rw [htrace] at hsome
        cases hsome
    | some p =>
        obtain ⟨s, rets⟩ := p
        obtain ⟨⟨avail, hc⟩, hloc⟩ := trace_located hc₀ htrace
        rw [htrace, Option.map_some, Option.bind_some, dumpRows_isSome hc.inv] at hsome
        have hpos := (hloc.inside x hx).resolve_left hout
        have hlt := hsome.resolve_left (Nat.pos_iff_ne_zero.mp hpos)
        exact hout ((hloc.above x hx).trans_lt hlt)
  · intro hall
    obtain ⟨ht, hs, -⟩ := init_table hinit
    obtain ⟨s, rets, htrace, -⟩ := trace_shows ht.inv hs hall
    obtain ⟨⟨avail, hc⟩, hloc⟩ := trace_located hc₀ htrace
    rw [htrace, Option.map_some, Option.bind_some, dumpRows_isSome hc.inv]
    right
    rcases hloc.seen with hsame | ⟨x, hx, heq⟩
    · rw [hsame, hzero]
      decide
    · rw [heq]
      exact hall x hx

end Init

-- ============================================================== the command

section Command

variable {env : DumpEnv} {args : List Arg} {operands : List Arg}

/-- An output file can be opened, and these are the operands. -/
def Opens (env : DumpEnv) (args operands : List Arg) : Prop :=
  ∃ fout, parseArgs env.fopenOut false [] args = some (fout, operands)
    ∧ (fout = true ∨ env.fopenOut outputDefault = true)

/-- The operands can be opened as well, there is memory for the traces, and
these are the files read. -/
def Reads (env : DumpEnv) (args : List Arg) (files : List File) : Prop :=
  (∃ operands, Opens env args operands ∧ openedFiles env.fopenIn 0 operands = some files)
    ∧ ∃ s, initTraceTbl env.mmapOk env.tblEnv env.ringEnv = some (.ok s)

/-- Without operands to open the command ends before it has used an array. -/
theorem cmdDump_not_opens (hno : ¬ ∃ operands, Opens env args operands) :
    cmdDump env args = some (-1) := by
  unfold cmdDump
  split
  next => rfl
  next fout operands hargs =>
    rw [if_pos]
    by_contra hout
    refine hno ⟨operands, fout, hargs, ?_⟩
    simpa [or_iff_not_imp_left] using hout

theorem cmdDump_of_opens (hopens : Opens env args operands) :
    cmdDump env args = dumpOperands env operands := by
  obtain ⟨fout, hargs, hout⟩ := hopens
  unfold cmdDump
  rw [hargs]
  exact if_neg (by simpa [or_iff_not_imp_left] using hout)

theorem length_openedFiles {fopenIn : Nat → Arg → Option File} {names : List Arg}
    {files : List File} {i : Nat} (hopen : openedFiles fopenIn i names = some files) :
    files.length = names.length := by
  induction names generalizing files i with
  | nil =>
      cases hopen
      rfl
  | cons name names ih =>
      obtain ⟨file, -, hmap⟩ := Option.bind_eq_some_iff.mp hopen
      obtain ⟨rest, hrest, rfl⟩ := Option.map_eq_some_iff.mp hmap
      rw [List.length_cons, List.length_cons, ih hrest]

/-- With too many file names the command leaves `fin`. -/
theorem dumpOperands_many (hmany : fileMax < operands.length) :
    dumpOperands env operands = none := by
  unfold dumpOperands
  cases hopen : openInputs env.fopenIn (fun _ => none) 0 operands with
  | none => rfl
  | some x =>
      obtain ⟨fin, opened⟩ := x
      obtain rfl := openInputs_many (Nat.zero_le _) (by omega) hopen
      -- what was opened is to be closed, and there are as many turns
      have hfree : freeInputs fin operands.length = none := by
        rw [← Option.not_isSome_iff_eq_none, freeInputs_isSome]
        omega
      exact congrArg (Option.map fun _ => (-1 : Int)) hfree

/-- With no more, it leaves an array only while it reads or writes. -/
theorem dumpOperands_few (hfew : operands.length ≤ fileMax) :
    (dumpOperands env operands).isSome
      ↔ ∀ files, openedFiles env.fopenIn 0 operands = some files →
          ∀ s, initTraceTbl env.mmapOk env.tblEnv env.ringEnv = some (.ok s) →
            ((readFiles s files).bind dumpRows).isSome := by
  have hfree : ∀ fin, ((freeInputs fin operands.length).map fun _ => (-1 : Int)).isSome := by
    intro fin
    rw [Option.isSome_map, freeInputs_isSome]
    exact hfew
  unfold dumpOperands
  cases hfiles : openedFiles env.fopenIn 0 operands with
  | none =>
      obtain ⟨fin, hopen⟩ : ∃ fin, openInputs env.fopenIn (fun _ => none) 0 operands
          = some (fin, false) := openInputs_failed hfiles (by omega)
      rw [hopen]
      exact iff_of_true (hfree fin) fun _ h => by cases h
  | some files =>
      have hlen := length_openedFiles hfiles
      have hopen : openInputs env.fopenIn (fun _ => none) 0 operands
          = some (Inputs.ofFiles files, true) :=
        @openInputs_all env.fopenIn operands files [] hfiles (by simpa using hfew)
      rw [hopen]
      simp only [Option.bind_some, Bool.not_true, Bool.false_eq_true, if_false]
      cases hinit : initTraceTbl env.mmapOk env.tblEnv env.ringEnv with
      | none => exact absurd hinit init_ne_none
      | some r =>
          cases r with
          | error e => exact iff_of_true (hfree _) fun _ _ _ h => by cases h
          | ok s =>
              have hload := loadInputs_eq (hlen ▸ hfew) s
              have hsame : ((loadInputs s (.ofFiles files) operands.length).bind
                    fun y => (dumpRows y.1).map fun _ => (0 : Int)).isSome
                  = ((readFiles s files).bind dumpRows).isSome := by
                rw [← hload, ← hlen]
                cases loadInputs s (.ofFiles files) files.length with
                | none => rfl
                | some y => exact Option.isSome_map
              constructor
              · intro hsome files' hfiles' s' hs'
                cases hfiles'
                cases hs'
                exact hsame ▸ hsome
              · intro hall
                exact hsame.trans (hall files rfl s rfl)

/-- Where the command stays inside its arrays: exactly where it is given no
more file names than `fin` has room for, and every record it reads has a
location inside the arrays of a trace. -/
theorem cmdDump_isSome_iff (env : DumpEnv) (args : List Arg) :
    (cmdDump env args).isSome
      ↔ (∀ operands, Opens env args operands → operands.length ≤ fileMax)
        ∧ ∀ files, Reads env args files →
            ∀ x ∈ files.flatten, x.1.location.toNat < locMax := by
  by_cases hex : ∃ operands, Opens env args operands
  · obtain ⟨operands, hopens⟩ := hex
    have honly : ∀ operands', Opens env args operands' → operands' = operands := by
      intro operands' hopens'
      obtain ⟨fout, hargs, -⟩ := hopens
      obtain ⟨fout', hargs', -⟩ := hopens'
      rw [hargs] at hargs'
      exact (Prod.mk.inj (Option.some.inj hargs')).2.symm
    by_cases hfew : operands.length ≤ fileMax
    · rw [cmdDump_of_opens hopens, dumpOperands_few hfew]
      constructor
      · intro hall
        refine ⟨fun operands' h => honly operands' h ▸ hfew, fun files hreads => ?_⟩
        obtain ⟨⟨operands', hopens', hfiles⟩, s, hinit⟩ := hreads
        rw [honly operands' hopens'] at hfiles
        exact (read_and_dump_isSome hinit files).mp (hall files hfiles s hinit)
      · intro hall files hfiles s hinit
        exact (read_and_dump_isSome hinit files).mpr
          (hall.2 files ⟨⟨operands, hopens, hfiles⟩, s, hinit⟩)
    · rw [cmdDump_of_opens hopens, dumpOperands_many (by omega)]
      exact iff_of_false (by simp) fun hall => hfew (hall.1 operands hopens)
  · rw [cmdDump_not_opens hex]
    refine iff_of_true rfl ⟨fun operands h => absurd ⟨operands, h⟩ hex, ?_⟩
    intro files hreads
    obtain ⟨⟨operands, hopens, -⟩, -⟩ := hreads
    exact absurd ⟨operands, hopens⟩ hex

/-- Every file there is has these records, and nothing else fails. -/
def envOf (file : File) : DumpEnv :=
  { fopenOut := fun _ => true, fopenIn := fun _ _ => some file
    mmapOk := fun _ => true, tblEnv := okEnv, ringEnv := okEnv }

/-- A record from behind the last location. -/
def outsideRecord : RecordFmt × UInt32 :=
  ({ tid := 0, location := 16, probeSender := 0, probeIdx := 0
     timestamp := .zero }, 0)

/-- Eleven empty files are too many, and one record can be enough. -/
theorem cmdDump_leaves_arrays :
    cmdDump (envOf []) (List.replicate 11 ['a']) = none
      ∧ cmdDump (envOf [outsideRecord]) [['a']] = none := by
  constructor
  · rw [cmdDump_of_opens ⟨false, rfl, .inr rfl⟩]
    exact dumpOperands_many (by decide)
  · have hopens : Opens (envOf [outsideRecord]) [['a']] [['a']] :=
      ⟨false, rfl, .inr rfl⟩
    obtain ⟨s, hinit⟩ := init_returns
    rw [cmdDump_of_opens hopens, ← Option.not_isSome_iff_eq_none,
      dumpOperands_few (by decide)]
    intro hall
    have hdump := hall [[outsideRecord]] rfl s hinit
    have hloc := (read_and_dump_isSome hinit _).mp hdump outsideRecord (by simp)
    exact absurd hloc (by decide)

end Command

end PktSender.Dump
