/-
The text of a dump is read back as what was dumped.

# The fields

The text is that of a table (`dumpAllTracesText_eq`): the title is its first
line, and every line has the fields of `rowFields`. So the table comes back
(`Tsv.table_text`), and each field is a number the C library printed.
-/
import PktSender.Dump.Text
import PktSender.Dump.Proofs.Times

namespace PktSender.Dump

open Tsv (Field Plain signed unsigned plain_signed plain_unsigned)
open CString (strtoul strtol)

variable {macLoc : UInt8} {row : Row} {columns : List (Int32 × UInt64)}

-- ================================================================ the fields

/-- A tab in front of each field. -/
def tabbed (fields : List Field) : List Char := fields.flatMap fun f => '\t' :: f

theorem intercalate_eq_tabbed (f : Field) (fields : List Field) :
    ['\t'].intercalate (f :: fields) = f ++ tabbed fields := by
  induction fields generalizing f with
  | nil => rw [List.intercalate_singleton, tabbed, List.flatMap_nil, List.append_nil]
  | cons g fields ih =>
      rw [List.intercalate_cons_cons, ih, List.append_assoc, tabbed, tabbed, List.flatMap_cons]
      rfl

theorem tabbed_flatMap {α : Type} (xs : List α) (fields : α → List Field) :
    tabbed (xs.flatMap fields) = xs.flatMap fun x => tabbed (fields x) :=
  List.flatMap_assoc

/-- The titles of a location. -/
def locFields (i : ℕ) : List Field :=
  [wordLoc ++ signed i ++ wordTid, wordLoc ++ signed i ++ wordNsec]

def titleFields (macLoc : UInt8) : List Field :=
  wordPortid :: wordProbeid :: (List.range (macLoc.toNat + 1)).flatMap locFields

def columnFields (column : Int32 × UInt64) : List Field :=
  [signed column.1.toInt, unsigned column.2.toNat]

/-- The fields of a trace. -/
def rowFields (row : Row) (columns : List (Int32 × UInt64)) : List Field :=
  unsigned row.portid.toNat :: unsigned row.probeid.toNat :: columns.flatMap columnFields

/-- A line of two fields and then others in groups. -/
theorem line_eq {α : Type} (f g : Field) (xs : List α) (fields : α → List Field) :
    Tsv.line (f :: g :: xs.flatMap fields)
      = f ++ ['\t'] ++ g ++ (xs.flatMap fun x => tabbed (fields x)) ++ ['\n'] := by
  rw [Tsv.line, intercalate_eq_tabbed, ← tabbed_flatMap, tabbed, List.flatMap_cons, ← tabbed]
  simp only [List.append_assoc, List.cons_append, List.nil_append]

/-- The title is a line of plain fields, -/
theorem titleText_eq (macLoc : UInt8) : titleText macLoc = Tsv.line (titleFields macLoc) := by
  have hloc : (fun i => tabbed (locFields i)) = locText := by
    funext i
    simp [tabbed, locFields, locText]
  rw [titleFields, line_eq, hloc]
  rfl

/-- and so is the text of a trace. -/
theorem traceText_eq (h : printRow macLoc row = some columns) :
    traceText macLoc row = some (Tsv.line (rowFields row columns)) := by
  have hcolumn : (fun column => tabbed (columnFields column)) = columnText := by
    funext column
    simp [tabbed, columnFields, columnText]
  rw [traceText, h, Option.map_some, rowFields, line_eq, hcolumn]

-- ================================================================= plainness

theorem plain_append {f g : List Char} (hf : Plain f) (hg : Plain g) : Plain (f ++ g) :=
  ⟨fun h => (List.mem_append.mp h).elim hf.1 hg.1, fun h => (List.mem_append.mp h).elim hf.2 hg.2⟩

theorem plain_titleFields : ∀ f ∈ titleFields macLoc, Plain f := by
  intro f hf
  rcases List.mem_cons.mp hf with rfl | hf
  · exact ⟨by decide, by decide⟩
  rcases List.mem_cons.mp hf with rfl | hf
  · exact ⟨by decide, by decide⟩
  obtain ⟨i, -, hi⟩ := List.mem_flatMap.mp hf
  have hloc : Plain (wordLoc ++ signed i) := plain_append ⟨by decide, by decide⟩ (plain_signed i)
  rcases List.mem_pair.mp hi with rfl | rfl
  · exact plain_append hloc ⟨by decide, by decide⟩
  · exact plain_append hloc ⟨by decide, by decide⟩

theorem plain_rowFields : ∀ f ∈ rowFields row columns, Plain f := by
  intro f hf
  rcases List.mem_cons.mp hf with rfl | hf
  · exact plain_unsigned _
  rcases List.mem_cons.mp hf with rfl | hf
  · exact plain_unsigned _
  obtain ⟨column, -, hcolumn⟩ := List.mem_flatMap.mp hf
  rcases List.mem_pair.mp hcolumn with rfl | rfl
  · exact plain_signed _
  · exact plain_unsigned _

-- =============================================================== reading back

/-- A number printed in decimal is read back. -/
theorem strtoul_toUInt32 (x : UInt32) : (strtoul (unsigned x.toNat) 10).val.toUInt32 = x := by
  have hread := Tsv.strtoul_unsigned x.toUInt64
  rw [UInt32.toNat_toUInt64] at hread
  rw [hread]
  exact UInt32.toUInt32_toUInt64 x

/-- So is a list of columns, a location and a time after the other. -/
theorem readColumns_eq (columns : List (Int32 × UInt64)) :
    readColumns (columns.flatMap columnFields) = columns := by
  induction columns with
  | nil => rfl
  | cons column columns ih =>
      rw [List.flatMap_cons, columnFields]
      show ((strtol (signed column.1.toInt) 10).val.toInt32,
        (strtoul (unsigned column.2.toNat) 10).val)
          :: readColumns (columns.flatMap columnFields) = _
      rw [ih, Tsv.strtol_signed, Tsv.strtoul_unsigned, Int32.toInt32_toInt64]

/-- A line is read back. -/
theorem readLine_rowFields :
    readLine (rowFields row columns)
      = some { portid := row.portid, probeid := row.probeid, columns := columns } := by
  show some (Line.mk (strtoul (unsigned row.portid.toNat) 10).val.toUInt32
    (strtoul (unsigned row.probeid.toNat) 10).val (readColumns (columns.flatMap columnFields))) = _
  rw [strtoul_toUInt32, Tsv.strtoul_unsigned, readColumns_eq]

-- ================================================================== the file

/-- A partial function that is defined on a list. -/
theorem mapM_eq_map {α β : Type} {f : α → Option β} {g : α → β} {l : List α}
    (h : ∀ x ∈ l, f x = some (g x)) : l.mapM f = some (l.map g) := by
  induction l with
  | nil => rfl
  | cons x l ih =>
      obtain ⟨hx, hl⟩ := List.forall_mem_cons.mp h
      rw [List.mapM_cons, hx, ih hl]
      rfl

/-- The columns of a trace, when they are inside the arrays. -/
def columnsOf (macLoc : UInt8) (row : Row) : List (Int32 × UInt64) :=
  (printRow macLoc row).getD []

theorem printRow_columnsOf (h : macLoc.toNat < locMax) (row : Row) :
    printRow macLoc row = some (columnsOf macLoc row) := by
  have hsome : (printRow macLoc row).isSome := by
    rw [printRow, Option.isSome_map, dumpRow_isSome]
    exact h
  obtain ⟨columns, hcolumns⟩ := Option.isSome_iff_exists.mp hsome
  rw [columnsOf, hcolumns, Option.getD_some]

/-- The table of a dump. -/
def dumpTable (s : DumpState) : List (List Field) :=
  titleFields s.macLoc
    :: (dumpAllTraces s).map fun row => rowFields row (columnsOf s.macLoc row)

variable {s : DumpState}

/-- The whole text, with the number of traces. -/
theorem dumpAllTracesText_eq (h : s.macLoc.toNat < locMax) :
    dumpAllTracesText s = some (Tsv.text (dumpTable s), (dumpAllTraces s).length) := by
  have hlines := @mapM_eq_map _ _ (traceText s.macLoc)
    (fun row => Tsv.line (rowFields row (columnsOf s.macLoc row))) (dumpAllTraces s)
    fun row _ => traceText_eq (printRow_columnsOf h row)
  rw [dumpAllTracesText, hlines, Option.map_some, titleText_eq, dumpTable, Tsv.text,
    List.flatMap_cons, List.flatMap_map, List.flatMap_def]

/-- The lines and the fields of the text can be told apart. -/
theorem table_dumpTable : Tsv.table (Tsv.text (dumpTable s)) = dumpTable s := by
  refine Tsv.table_text (fun fields hf => ?_) fun fields hf => ?_
  · rcases List.mem_cons.mp hf with rfl | hf
    · exact List.cons_ne_nil _ _
    · obtain ⟨row, -, rfl⟩ := List.mem_map.mp hf
      exact List.cons_ne_nil _ _
  · rcases List.mem_cons.mp hf with rfl | hf
    · exact plain_titleFields
    · obtain ⟨row, -, rfl⟩ := List.mem_map.mp hf
      exact plain_rowFields

/-- What a line says is what the trace has. -/
def LineMatches (macLoc : UInt8) (row : Row) (line : Line) : Prop :=
  line.portid = row.portid ∧ line.probeid = row.probeid
    ∧ printRow macLoc row = some line.columns

/-- From the traces to the file and back. With all locations inside the arrays,
the dump is a table whose title names the columns and whose lines have as many
fields as the title, and a program that reads it finds the ids, threads and
times of the traces, in their order, whatever they are. -/
theorem text_round_trip (h : s.macLoc.toNat < locMax) :
    ∃ text lines, dumpAllTracesText s = some (text, lines.length)
      ∧ (Tsv.table text).head? = some (titleFields s.macLoc)
      ∧ (∀ fields ∈ Tsv.table text, fields.length = 2 * (s.macLoc.toNat + 2))
      ∧ readText text = some lines
      ∧ List.Forall₂ (LineMatches s.macLoc) (dumpAllTraces s) lines := by
  refine ⟨Tsv.text (dumpTable s), (dumpAllTraces s).map fun row =>
    { portid := row.portid, probeid := row.probeid, columns := columnsOf s.macLoc row },
    ?_, ?_, fun fields hf => ?_, ?_, ?_⟩
  · rw [dumpAllTracesText_eq h, List.length_map]
  · rw [table_dumpTable]
    rfl
  · rw [table_dumpTable] at hf
    rcases List.mem_cons.mp hf with rfl | hf
    · simp [titleFields, locFields, List.length_flatMap]
      omega
    · obtain ⟨row, -, rfl⟩ := List.mem_map.mp hf
      have hlen := length_printRow (printRow_columnsOf h row)
      simp [rowFields, columnFields, List.length_flatMap, hlen]
      omega
  · rw [readText, table_dumpTable, dumpTable, List.drop_one, List.tail_cons, List.mapM_map]
    exact mapM_eq_map fun row _ => readLine_rowFields
  · rw [List.forall₂_map_right_iff]
    exact List.forall₂_same.mpr fun row _ => ⟨rfl, rfl, printRow_columnsOf h row⟩

/-- Two times of day of one trace. -/
theorem text_round_trip_twoPlaces :
    ∃ s text lines, dumpAllTracesText s = some (text, lines.length)
      ∧ readText text = some lines
      ∧ ∃ line ∈ lines, line.columns[1]?.map (·.2) = some 6000001000 := by
  obtain ⟨s₀, s, row, printed, -, -, hrow, hmac, hprinted, -, hsecond⟩ :=
    twoPlaces_dumped ⟨1, 5, 999999999⟩ ⟨1, 6, 1000⟩
  obtain ⟨text, lines, htext, -, -, hread, hlines⟩ :=
    text_round_trip (show s.macLoc.toNat < locMax by rw [hmac]; decide)
  refine ⟨s, text, lines, htext, hread, ?_⟩
  obtain ⟨i, hi, rfl⟩ := List.mem_iff_getElem.mp hrow
  have hi' : i < lines.length := hlines.length_eq ▸ hi
  obtain ⟨-, -, hcolumns⟩ := hlines.get hi hi'
  refine ⟨lines[i], List.getElem_mem hi', ?_⟩
  have hcolumn : (lines[i].columns)[loc1.val]? = _ :=
    printRow_getElem hcolumns (show loc1.val ≤ s.macLoc.toNat by rw [hmac]; decide)
  rw [show (1 : ℕ) = loc1.val from rfl, hcolumn, Option.map_some]
  exact congrArg some ((congrArg getTimeNs hsecond).trans (by decide))

end PktSender.Dump
