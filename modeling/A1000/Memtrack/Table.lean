import A1000.Lib.Stdio
import Mathlib.Data.List.DropRight
import Mathlib.Data.UInt

/-!
# The memory of the GPU, row by row

The driver prints a table: a heading, a line of `=`, a row for each thread with its name, its
process and five numbers of bytes, and lines with totals. `mali_sum_for_pid` takes the table in
pieces that fit its buffer and has `sscanf` take a name, a process and five numbers from each.

A name is whatever the thread has given itself, up to 15 bytes that are not zero; `sscanf` takes its
first word. The bytes of a name up to its last newline are lines of their own.

## Main definitions

* `Memtrack.maliSumForPid` — the sum that the code computes
* `Memtrack.Row`, `Memtrack.Table` — the table as it is printed
* `Memtrack.Comm.front`, `Memtrack.Comm.last` — a name up to its last newline, and after it
* `Memtrack.read` — what a line adds

## Main results

* `Memtrack.maliSumForPid_text` — only rows add anything
* `Memtrack.read_lastLine_of_plain` — a row whose name is one word is read as it is meant
-/

namespace A1000

namespace Memtrack

open Bytes (isSpace sign exists_sign)
open Stdio

/-! ### The code -/

/-- What `sscanf` takes from a line: the process, and the five numbers after it. -/
def scanLine (line : Bytes) : Option (Int32 × List UInt64) :=
  (scanString 127 (line.takeWhile (· ≠ 0))).bind fun name =>
    (scanNumber name.2).bind fun pid =>
      (scanNumbers 5 pid.2).map fun vals => (toInt pid.1, vals.1.map toUInt64)

/-- One turn of the loop. -/
def addLine (pid : Int32) (column : Fin 5) (total : UInt64) (line : Bytes) : UInt64 :=
  match scanLine line with
  | none => total
  | some (rowPid, vals) => if rowPid = pid then total + vals.getD column 0 else total

/-- `mali_sum_for_pid`: what it returns and what it stores. The file is there, or it cannot be
opened. -/
def maliSumForPid (file : Except ℤ Bytes) (pid : Int32) (column : Fin 5) : ℤ × Option UInt64 :=
  match file with
  | .error errno => (-errno, none)
  | .ok text => (0, some ((chunks 512 text).foldl (addLine pid column) 0))

/-! ### The table -/

/-- The name of a thread. -/
structure Comm where
  bytes : Bytes
  pos : 0 < bytes.length
  length_le : bytes.length ≤ 15
  no_zero : 0 ∉ bytes

def blanks (n : ℕ) : Bytes := List.replicate n 32

/-- Numbers with blanks in front of them. -/
def columns (cols : List (ℕ × ℕ)) : Bytes := cols.flatMap fun c => blanks (c.1 + 1) ++ decimal c.2

/-- The numbers of a row, with the blanks in front of each. -/
def numbers (pid : ℕ) (vals : Fin 5 → UInt64) (gaps : Fin 6 → ℕ) : List (ℕ × ℕ) :=
  (gaps 0, pid) :: List.ofFn fun i : Fin 5 => (gaps i.succ, (vals i).toNat)

/-- A row. The numbers are those of `mali_mem`, `max_mali_mem`, `external_mem`, `ump_mem` and
`dma_mem`; the gaps are what pads the columns, and the row fits the buffer. -/
structure Row where
  name : Comm
  pid : ℕ
  vals : Fin 5 → UInt64
  gaps : Fin 6 → ℕ
  tail : ℕ
  pid_lt : pid < 2 ^ 31
  fits : (name.bytes ++ (columns (numbers pid vals gaps) ++ blanks tail)).length ≤ 510

namespace Row

def numbers (r : Row) : List (ℕ × ℕ) := Memtrack.numbers r.pid r.vals r.gaps

/-- What follows the name. -/
def rest (r : Row) : Bytes := columns r.numbers ++ blanks r.tail

def text (r : Row) : Bytes := r.name.bytes ++ r.rest

end Row

/-- Some text in a line. -/
structure Note where
  bytes : Bytes
  no_newline : newline ∉ bytes
  length_le : bytes.length ≤ 400

/-- A table: the titles behind `Name (:bytes)`, the length of the line of `=`, the rows, and what
follows `Mali mem ` in the lines with totals. -/
structure Table where
  titles : Note
  rule : {n : ℕ // n ≤ 510}
  rows : List Row
  totals : List Note

namespace Table

/-- `Name (:bytes)` and the other titles. -/
def heading (t : Table) : Bytes :=
  [78, 97, 109, 101] ++ 32 :: 40 :: ([58, 98, 121, 116, 101, 115, 41] ++ t.titles.bytes)

/-- `Mali mem ` and something. -/
def total (n : Note) : Bytes := [77, 97, 108, 105] ++ 32 :: 109 :: ([101, 109, 32] ++ n.bytes)

def lines (t : Table) : List Bytes :=
  t.heading :: List.replicate t.rule 61 :: (t.rows.map Row.text ++ t.totals.map total)

def text (t : Table) : Bytes := t.lines.flatMap (· ++ [newline])

end Table

/-! ### Rows -/

/-- The lines that a name contains: all of it up to its last newline. -/
def Comm.front (n : Comm) : Bytes := n.bytes.rdropWhile (· ≠ newline)

/-- What follows the last newline of a name. -/
def Comm.last (n : Comm) : Bytes := n.bytes.rtakeWhile (· ≠ newline)

/-- The line in which the numbers of a row stand. -/
def Row.lastLine (r : Row) : Bytes := r.name.last ++ r.rest

/-- **A plain name**: after its last newline it is one word. -/
def Comm.Plain (n : Comm) : Prop := (words n.last).length = 1

/-! ### What lines add -/

/-- What a line adds to the sum. -/
def read (pid : Int32) (column : Fin 5) (line : Bytes) : UInt64 :=
  match scanLine line with
  | none => 0
  | some (rowPid, vals) => if rowPid = pid then vals.getD column 0 else 0

/-- What the pieces of a text add. -/
def readText (pid : Int32) (column : Fin 5) (s : Bytes) : UInt64 :=
  ((chunks 512 s).map (read pid column)).sum

section Sum

variable {pid : Int32} {column : Fin 5}

theorem addLine_eq (total : UInt64) (line : Bytes) :
    addLine pid column total line = total + read pid column line := by
  rw [addLine, read]
  split
  · rw [UInt64.add_zero]
  · split_ifs
    · rfl
    · rw [UInt64.add_zero]

theorem foldl_addLine (total : UInt64) (ls : List Bytes) :
    ls.foldl (addLine pid column) total = total + (ls.map (read pid column)).sum := by
  induction ls generalizing total with
  | nil => simp
  | cons l ls ih =>
    rw [List.foldl_cons, ih, addLine_eq, List.map_cons, List.sum_cons, UInt64.add_assoc]

theorem readText_append {s : Bytes} (h : Ended s) (rest : Bytes) :
    readText pid column (s ++ rest) = readText pid column s + readText pid column rest := by
  rw [readText, chunks_append (by decide) h, List.map_append, List.sum_append]
  rfl

/-- What the lines of a text add. -/
theorem readText_flatMap (ls : List Bytes) :
    readText pid column (ls.flatMap (· ++ [newline])) =
      (ls.map fun l => readText pid column (l ++ [newline])).sum := by
  induction ls with
  | nil => rfl
  | cons l ls ih =>
    rw [List.flatMap_cons, readText_append (ended_append_newline l), ih, List.map_cons,
      List.sum_cons]

theorem maliSumForPid_ok (s : Bytes) :
    maliSumForPid (.ok s) pid column = (0, some (readText pid column s)) := by
  rw [maliSumForPid, foldl_addLine, UInt64.zero_add]
  rfl

theorem read_of_none {line : Bytes} (h : scanLine line = none) : read pid column line = 0 := by
  rw [read, h]

end Sum

/-! ### Lines that are no rows -/

/-- A word, and behind it something that is no number. -/
theorem scanLine_of_label {w : Bytes} {d : UInt8} (hw : w ≠ []) (hlen : w.length ≤ 127)
    (hword : ∀ c ∈ w, isSpace c = false ∧ c ≠ 0) (hd : d = 40 ∨ d = 109) (z : Bytes) :
    scanLine (w ++ 32 :: d :: z) = none := by
  have hwords : words w = [w] := words_of_word hw fun c hc => (hword c hc).1
  have hzero : (w ++ 32 :: d :: z).takeWhile (· ≠ 0) = w ++ 32 :: d :: z.takeWhile (· ≠ 0) := by
    rw [List.takeWhile_append_of_pos fun c hc => by simpa using (hword c hc).2]
    rcases hd with rfl | rfl <;> simp
  have hnumber : ∀ b : Bytes, words b = [] → scanNumber (b ++ 32 :: d :: z.takeWhile (· ≠ 0)) =
      none := by
    intro b hb
    rw [scanNumber, List.dropWhile_append_of_pos (words_eq_nil_iff.mp hb)]
    rcases hd with rfl | rfl <;> simp [isSpace, sign, isDigit]
  obtain ⟨rest, hscan, hrest⟩ := scanString_of_words hwords hlen
  rw [scanLine, hzero, (oneWord_scanString 127).append _ (by simp [hwords]) (by decide), hscan,
    Option.map_some, Option.bind_some, hnumber rest hrest]
  rfl

/-- Without a digit there is no number. -/
theorem scanNumber_of_no_digit {s : Bytes} (h : ∀ c ∈ s, isDigit c = false) :
    scanNumber s = none := by
  have hnone : (sign (s.dropWhile isSpace)).2.takeWhile isDigit = [] := by
    obtain ⟨x, hx, -⟩ := exists_sign (s.dropWhile isSpace)
    refine List.eq_nil_iff_forall_not_mem.mpr fun c hc => ?_
    have hmem : c ∈ s.dropWhile isSpace := by
      rw [hx]
      exact List.mem_append_right x ((List.takeWhile_prefix _).mem hc)
    have hdigit : isDigit c = true := List.mem_takeWhile_imp hc
    rw [h c ((List.dropWhile_suffix _).mem hmem)] at hdigit
    cases hdigit
  simp only [scanNumber, hnone, if_pos]

theorem scanLine_of_no_digit {s : Bytes} (h : ∀ c ∈ s, isDigit c = false) :
    scanLine s = none := by
  have hline : ∀ c ∈ s.takeWhile (· ≠ 0), isDigit c = false := fun c hc =>
    h c ((List.takeWhile_prefix _).mem hc)
  rw [scanLine]
  generalize s.takeWhile (· ≠ 0) = line at hline
  cases hscan : scanString 127 line with
  | none => rfl
  | some r =>
    have hrest : scanNumber r.2 = none := scanNumber_of_no_digit fun c hc =>
      hline c ((suffix_of_scanString (w := r.1) (r := r.2) hscan).mem hc)
    rw [Option.bind_some, hrest]
    rfl

theorem scanLine_heading (t : Table) : scanLine (t.heading ++ [newline]) = none := by
  rw [Table.heading, List.append_assoc, List.cons_append, List.cons_append]
  exact scanLine_of_label (w := [78, 97, 109, 101]) (by decide) (by decide) (by simp [isSpace])
    (.inl rfl) _

theorem scanLine_total (n : Note) : scanLine (Table.total n ++ [newline]) = none := by
  rw [Table.total, List.append_assoc, List.cons_append, List.cons_append]
  exact scanLine_of_label (w := [77, 97, 108, 105]) (by decide) (by decide) (by simp [isSpace])
    (.inr rfl) _

theorem scanLine_rule (n : ℕ) : scanLine (List.replicate n 61 ++ [newline]) = none :=
  scanLine_of_no_digit fun c hc => by
    rcases List.mem_append.mp hc with hc | hc
    · rw [List.eq_of_mem_replicate hc]
      decide
    · rw [List.mem_singleton.mp hc]
      decide

section Parts

variable {pid : Int32} {column : Fin 5}

/-- A line that fits the buffer adds what is read from it. -/
theorem readText_of_short {l : Bytes} (hl : newline ∉ l) (h : l.length ≤ 510) :
    readText pid column (l ++ [newline]) = read pid column (l ++ [newline]) := by
  rw [readText, chunks_of_short hl (by omega), List.map_singleton, List.sum_singleton]

theorem readText_heading (t : Table) : readText pid column (t.heading ++ [newline]) = 0 := by
  have hlen := t.titles.length_le
  rw [readText_of_short (by simp [Table.heading, newline]; exact t.titles.no_newline)
    (by simp [Table.heading]; omega), read_of_none (scanLine_heading t)]

theorem readText_rule (n : {n : ℕ // n ≤ 510}) :
    readText pid column (List.replicate n 61 ++ [newline]) = 0 := by
  rw [readText_of_short (by simp [newline]) (by simpa using n.2), read_of_none (scanLine_rule n)]

theorem readText_total (n : Note) : readText pid column (Table.total n ++ [newline]) = 0 := by
  have hlen := n.length_le
  rw [readText_of_short (by simp [Table.total, newline]; exact n.no_newline)
    (by simp [Table.total]; omega), read_of_none (scanLine_total n)]

/-- **Only rows add anything.** -/
theorem maliSumForPid_text (t : Table) :
    maliSumForPid (.ok t.text) pid column =
      (0, some (t.rows.map fun r => readText pid column (r.text ++ [newline])).sum) := by
  have hlines : (t.lines.map fun l => readText pid column (l ++ [newline])).sum =
      (t.rows.map fun r => readText pid column (r.text ++ [newline])).sum := by
    have htotals : (t.totals.map fun n => readText pid column (Table.total n ++ [newline])).sum =
        0 := by
      simp only [readText_total]
      induction t.totals with
      | nil => rfl
      | cons n ns ih => rw [List.map_cons, List.sum_cons, ih, UInt64.add_zero]
    simp only [Table.lines, List.map_cons, List.sum_cons, List.map_append, List.sum_append,
      List.map_map, Function.comp_def, readText_heading, readText_rule, htotals, UInt64.zero_add,
      UInt64.add_zero]
  rw [← hlines, maliSumForPid_ok, Table.text, readText_flatMap]

end Parts

/-! ### The lines of a row -/

theorem ended_front (n : Comm) : Ended n.front := by
  intro c hc
  have hne : n.front ≠ [] := by
    rintro hnil
    rw [hnil] at hc
    cases hc
  have hlast : n.front.getLast hne = c := by
    simpa [List.getLast?_eq_getLast_of_ne_nil hne] using hc
  have hnot := List.rdropWhile_last_not (fun c => decide (c ≠ newline)) n.bytes hne
  rw [← hlast]
  by_contra hc
  exact hnot (by simpa [Comm.front] using hc)

theorem isSpace_of_mem_blanks {n : ℕ} {c : UInt8} (h : c ∈ blanks n) : isSpace c = true := by
  rw [List.eq_of_mem_replicate h]
  rfl

/-- The words of a row are those of the name, and its numbers. -/
theorem words_append_columns (x : Bytes) (cols : List (ℕ × ℕ)) :
    words (x ++ columns cols) = words x ++ cols.map fun c => decimal c.2 := by
  induction cols generalizing x with
  | nil => simp [columns]
  | cons c cols ih =>
    have hcons : columns (c :: cols) = 32 :: (blanks c.1 ++ (decimal c.2 ++ columns cols)) := by
      simp [columns, blanks, List.replicate_succ]
    rw [hcons, words_append_cons (by decide),
      words_blanks_append fun d hd => isSpace_of_mem_blanks hd, ih, words_decimal]
    rfl

/-- Behind the name there are blanks and digits. -/
theorem mem_rest {r : Row} {c : UInt8} (h : c ∈ r.rest) : c = 32 ∨ isDigit c = true := by
  simp only [Row.rest, columns, List.mem_append, List.mem_flatMap] at h
  rcases h with ⟨d, -, h | h⟩ | h
  · exact .inl (List.eq_of_mem_replicate h)
  · exact .inr (isDigit_of_mem_decimal h)
  · exact .inl (List.eq_of_mem_replicate h)

theorem text_eq (r : Row) : r.text = r.name.front ++ r.lastLine := by
  rw [Row.text, Row.lastLine, ← List.append_assoc, Comm.front, Comm.last,
    List.rdropWhile_append_rtakeWhile]

/-- A row fits the buffer, and has no newline behind the name. -/
theorem lastLine_spec (r : Row) :
    newline ∉ r.lastLine ∧ r.lastLine.length ≤ 510 ∧ 0 ∉ r.lastLine := by
  refine ⟨fun h => ?_, ?_, fun h => ?_⟩
  · rcases List.mem_append.mp h with h | h
    · simpa using List.mem_rtakeWhile_imp h
    · rcases mem_rest h with h | h <;> revert h <;> decide
  · have hfits : r.text.length ≤ 510 := r.fits
    rw [text_eq, List.length_append] at hfits
    omega
  · rcases List.mem_append.mp h with h | h
    · exact r.name.no_zero ((List.rtakeWhile_suffix _ _).mem h)
    · rcases mem_rest h with h | h <;> revert h <;> decide

section Parts

variable {pid : Int32} {column : Fin 5}

/-- **What a row adds**: its lines inside the name, and the line with its numbers. -/
theorem readText_row (r : Row) :
    readText pid column (r.text ++ [newline]) =
      readText pid column r.name.front + read pid column (r.lastLine ++ [newline]) := by
  obtain ⟨hnewline, hlen, -⟩ := lastLine_spec r
  rw [text_eq, List.append_assoc, readText_append (ended_front r.name),
    readText_of_short hnewline hlen]

end Parts

/-! ### Rows whose name is one word -/

theorem words_lastLine (r : Row) :
    words (r.lastLine ++ [newline]) = words r.name.last ++ r.numbers.map fun c => decimal c.2 := by
  have hblank : ∀ c ∈ blanks r.tail ++ [newline], isSpace c = true := by
    intro c hc
    rcases List.mem_append.mp hc with hc | hc
    · exact isSpace_of_mem_blanks hc
    · rw [List.mem_singleton.mp hc]
      rfl
  rw [Row.lastLine, Row.rest, ← List.append_assoc, List.append_assoc, words_append_blanks hblank,
    words_append_columns]

theorem takeWhile_lastLine (r : Row) :
    (r.lastLine ++ [newline]).takeWhile (· ≠ 0) = r.lastLine ++ [newline] := by
  refine List.takeWhile_eq_self_iff.mpr fun c hc => ?_
  obtain ⟨-, -, hzero⟩ := lastLine_spec r
  rcases List.mem_append.mp hc with hc | hc
  · simpa using ne_of_mem_of_not_mem hc hzero
  · rw [List.mem_singleton.mp hc]
    decide

/-- A process is stored as it is printed. -/
theorem toInt_eq_iff {n : ℕ} (h : n < 2 ^ 31) (pid : Int32) :
    toInt (false, n) = pid ↔ (n : ℤ) = pid.toInt := by
  have hmin : min (n : ℤ) (2 ^ 63 - 1) = n := min_eq_left (by omega)
  rw [← Int32.toInt_inj, toInt, if_neg (by simp), hmin,
    Int32.toInt_ofInt_of_le (by omega) (by omega)]

theorem toUInt64_toNat (v : UInt64) : toUInt64 (false, v.toNat) = v := by
  simp [toUInt64, v.toNat_lt]

/-- What a row is meant to add. -/
def Row.given (pid : Int32) (column : Fin 5) (r : Row) : UInt64 :=
  if (r.pid : ℤ) = pid.toInt then r.vals column else 0

theorem scanLine_lastLine_of_plain {r : Row} (h : r.name.Plain) :
    scanLine (r.lastLine ++ [newline]) = some (toInt (false, r.pid), List.ofFn r.vals) := by
  obtain ⟨w, hw⟩ := List.length_eq_one_iff.mp h
  have hlen : w.length ≤ 127 := by
    have hle := length_le_of_words_eq_cons hw
    have hlast := (List.rtakeWhile_suffix (· ≠ newline) r.name.bytes).length_le
    have hname := r.name.length_le
    rw [Comm.last] at hle
    omega
  have hwords := words_lastLine r
  rw [hw, Row.numbers, numbers, List.map_cons, List.map_ofFn] at hwords
  obtain ⟨r₁, h₁, hr₁⟩ := scanString_of_words hwords hlen
  obtain ⟨r₂, h₂, hr₂⟩ := scanNumber_of_words hr₁
  have hvals : words r₂ = (List.ofFn fun i => (r.vals i).toNat).map decimal ++ [] := by
    rw [hr₂, List.map_ofFn, List.append_nil]
    rfl
  obtain ⟨r₃, h₃, -⟩ := scanNumbers_of_words hvals
  rw [List.length_ofFn] at h₃
  rw [scanLine, takeWhile_lastLine, h₁, Option.bind_some, h₂, Option.bind_some, h₃,
    Option.map_some, List.map_map, List.map_ofFn]
  congr 3
  funext i
  exact toUInt64_toNat (r.vals i)

/-- **A row whose name is one word is read as it is meant.** -/
theorem read_lastLine_of_plain {r : Row} (h : r.name.Plain) (pid : Int32) (column : Fin 5) :
    read pid column (r.lastLine ++ [newline]) = r.given pid column := by
  have hvals : (List.ofFn r.vals).getD column 0 = r.vals column := by
    rw [List.getD_eq_getElem?_getD, List.getElem?_ofFn, dif_pos column.2, Option.getD_some]
  rw [read, scanLine_lastLine_of_plain h]
  simp only [toInt_eq_iff r.pid_lt, hvals, Row.given]

end Memtrack

end A1000
