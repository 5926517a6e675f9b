/-
Text tables: numbers in decimal, fields with tabs between them, lines with a
newline behind each.

# Numbers

`%lu` and `%u` print an unsigned number as `unsigned`, `%d` a signed one as
`signed`. What is printed is what `strtoul` and `strtol` read back.

# Tables

`text` is the text of a table and `table` the table of a text. Of any table
whose fields have neither tab nor newline in them and whose lines have at
least one field, the text gives the table back (`table_text`).
-/
import PktSender.Lib.CString

namespace Tsv

open CString

abbrev Field := List Char

-- =============================================================== the numbers

/-- `%u`, `%lu`. -/
def unsigned (n : ℕ) : Field := Nat.toDigits 10 n

/-- `%d`. -/
def signed (n : ℤ) : Field :=
  if n < 0 then '-' :: unsigned n.natAbs else unsigned n.natAbs

variable {n : ℕ}

theorem isDigit_of_mem_unsigned {c : Char} (hc : c ∈ unsigned n) : c.isDigit :=
  Nat.isDigit_of_mem_toDigits (by decide) (by decide) hc

theorem value_unsigned : value 10 (unsigned n) = n := by
  rw [value_eq fun c hc => isDigit_of_mem_unsigned hc]
  exact Nat.ofDigitChars_ten_toDigits

theorem scan_unsigned : scan 10 (unsigned n) = some { neg := false, mag := n, rest := [] } := by
  have hscan := @scan_decimal (unsigned n) [] Nat.toDigits_ne_nil
    (fun c hc => isDigit_of_mem_unsigned hc) (fun c hc => by cases hc)
  rwa [List.append_nil, value_unsigned] at hscan

/-- A minus in front of digits. -/
theorem scan_minus : scan 10 ('-' :: unsigned n) = some { neg := true, mag := n, rest := [] } := by
  obtain ⟨htake, hdrop⟩ := @span_digits 10 (unsigned n) []
    (fun c hc => by rw [isDigitOf_ten]; exact isDigit_of_mem_unsigned hc)
    (fun c hc => by cases hc)
  rw [List.append_nil] at htake hdrop
  have hspace : ('-' :: unsigned n).dropWhile isSpace = '-' :: unsigned n := rfl
  have hbase : baseOf 10 (unsigned n) = (10, unsigned n) := rfl
  have hne : (unsigned n).isEmpty = false := by
    rw [List.isEmpty_eq_false_iff]
    exact Nat.toDigits_ne_nil
  simp only [scan, hspace, sign, hbase, htake, hdrop, hne, value_unsigned]
  rfl

/-- `strtoul` reads what `%lu` printed. -/
theorem strtoul_unsigned (x : UInt64) :
    strtoul (unsigned x.toNat) 10 = { val := x, rest := [], erange := false } := by
  simp only [strtoul, scan_unsigned, if_pos x.toNat_lt, Bool.false_eq_true, if_false,
    UInt64.ofNat_toNat]

/-- `strtol` reads what `%d` printed. -/
theorem strtol_signed (x : Int32) :
    strtol (signed x.toInt) 10 = { val := x.toInt64, rest := [], erange := false } := by
  have hlower := x.le_toInt
  have hupper := x.toInt_lt
  unfold signed
  split
  next hneg =>
    have hmag : x.toInt.natAbs ≤ 2 ^ 63 := by omega
    have hval : -Int64.ofNat x.toInt.natAbs = x.toInt64 := by
      apply Int64.toInt.inj
      rw [Int64.toInt_neg_ofNat_of_le hmag, Int32.toInt_toInt64]
      omega
    simp only [strtol, scan_minus, if_true, if_pos hmag, hval]
  next hpos =>
    have hmag : x.toInt.natAbs < 2 ^ 63 := by omega
    have hval : Int64.ofNat x.toInt.natAbs = x.toInt64 := by
      apply Int64.toInt.inj
      rw [Int64.toInt_ofNat_of_lt hmag, Int32.toInt_toInt64]
      omega
    simp only [strtol, scan_unsigned, Bool.false_eq_true, if_false, if_pos hmag, hval]

-- ================================================================ the tables

/-- A line. -/
def line (fields : List Field) : List Char := ['\t'].intercalate fields ++ ['\n']

def text (table : List (List Field)) : List Char := table.flatMap line

/-- The lines and their fields; behind the last newline there is no line. -/
def table (text : List Char) : List (List Field) :=
  ((text.splitOn '\n').dropLast).map fun line => line.splitOn '\t'

/-- No tab and no newline in it. -/
def Plain (field : Field) : Prop := '\t' ∉ field ∧ '\n' ∉ field

theorem newline_not_mem_intercalate {fields : List Field} (h : ∀ f ∈ fields, Plain f) :
    '\n' ∉ ['\t'].intercalate fields := by
  induction fields with
  | nil => exact List.not_mem_nil
  | cons f fields ih =>
      obtain ⟨hf, hfields⟩ := List.forall_mem_cons.mp h
      cases fields with
      | nil =>
          rw [List.intercalate_singleton]
          exact hf.2
      | cons g fields =>
          rw [List.intercalate_cons_cons, List.append_assoc, List.mem_append, List.mem_append,
            List.mem_singleton]
          exact not_or.mpr ⟨hf.2, not_or.mpr ⟨by decide, ih hfields⟩⟩

/-- The text of a table gives the table back. -/
theorem table_text {rows : List (List Field)} (hne : ∀ fields ∈ rows, fields ≠ [])
    (h : ∀ fields ∈ rows, ∀ f ∈ fields, Plain f) : table (text rows) = rows := by
  induction rows with
  | nil => rfl
  | cons fields rows ih =>
      obtain ⟨hfields, hne⟩ := List.forall_mem_cons.mp hne
      obtain ⟨hplain, h⟩ := List.forall_mem_cons.mp h
      have hsplit : (text (fields :: rows)).splitOn '\n'
          = ['\t'].intercalate fields :: (text rows).splitOn '\n' := by
        rw [text, List.flatMap_cons, line, List.append_assoc, List.singleton_append]
        exact List.splitOn_append_cons_self_of_not_mem (newline_not_mem_intercalate hplain) _
      have htabs : (['\t'].intercalate fields).splitOn '\t' = fields :=
        List.splitOn_intercalate '\t' (fun f hf => (hplain f hf).1) hfields
      rw [table, hsplit, List.dropLast_cons_of_ne_nil (List.splitOn_ne_nil _ _), List.map_cons,
        htabs]
      exact congrArg _ (ih hne h)

/-- Digits are plain, with a sign or without. -/
theorem plain_unsigned (n : ℕ) : Plain (unsigned n) := by
  have hdigit : ∀ c ∈ unsigned n, 48 ≤ c.toNat := fun c hc =>
    ((isDigit_iff c).mp (isDigit_of_mem_unsigned hc)).1
  exact ⟨fun hmem => absurd (hdigit _ hmem) (by decide),
    fun hmem => absurd (hdigit _ hmem) (by decide)⟩

theorem plain_signed (n : ℤ) : Plain (signed n) := by
  obtain ⟨htab, hnewline⟩ := plain_unsigned n.natAbs
  unfold signed
  split
  · exact ⟨List.not_mem_cons_of_ne_of_not_mem (by decide) htab,
      List.not_mem_cons_of_ne_of_not_mem (by decide) hnewline⟩
  · exact ⟨htab, hnewline⟩

end Tsv
