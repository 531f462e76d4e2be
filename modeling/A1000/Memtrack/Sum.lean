import A1000.Memtrack.Table

/-!
# When the sum is right

The sum for a process is right if it is the sum over exactly the rows of that process. Rows whose
name is one word after its last newline are read as they are meant; what the lines inside a name and
the other rows add is all that may go wrong.

A name of several words moves the numbers to the right, so that the last of them is never read; a
name without a word moves them to the left, so that there are too few. Either way the number that is
not read decides what the sum ought to be, and so no such name is safe.

## Main definitions

* `Memtrack.Right` — the sum for a process is the sum over its rows
* `Memtrack.Table.misread` — the rows whose name is not one word

## Main results

* `Memtrack.read_lastLine_congr` — of a row whose name is not one word, the last number is not read
* `Memtrack.right_iff` — when the sum is right, for a table, and for all tables with the same names
-/

namespace A1000

namespace Memtrack

open Bytes (isSpace sign)
open Stdio

/-! ### What the sum ought to be -/

/-- The sum over exactly the rows of a process. -/
def meant (rows : List Row) (pid : Int32) (column : Fin 5) : ℕ :=
  ((rows.filter fun r => (r.pid : ℤ) = pid.toInt).map fun r => (r.vals column).toNat).sum

/-- **The sum is right.** -/
def Right (t : Table) (pid : Int32) (column : Fin 5) : Prop :=
  ∃ s : UInt64, maliSumForPid (.ok t.text) pid column = (0, some s) ∧
    s.toNat = meant t.rows pid column

/-- The columns that are asked for: `mali_mem` and `dma_mem`. -/
def usedColumns : List (Fin 5) := [0, 4]

instance (n : Comm) : Decidable n.Plain := inferInstanceAs (Decidable (_ = _))

/-- The rows whose name is not one word. -/
def Table.misread (t : Table) : List Row := t.rows.filter fun r => ¬ r.name.Plain

/-- No column of any process adds up to more than 64 bits hold. -/
def Table.Fits (t : Table) : Prop := ∀ pid column, meant t.rows pid column < 2 ^ 64

theorem meant_append (rows rows' : List Row) (pid : Int32) (column : Fin 5) :
    meant (rows ++ rows') pid column = meant rows pid column + meant rows' pid column := by
  rw [meant, List.filter_append, List.map_append, List.sum_append]
  rfl

theorem meant_cons (r : Row) (rows : List Row) (pid : Int32) (column : Fin 5) :
    meant (r :: rows) pid column = (r.given pid column).toNat + meant rows pid column := by
  rw [meant, Row.given, List.filter_cons]
  simp only [decide_eq_true_eq]
  split_ifs
  · rw [List.map_cons, List.sum_cons]
    rfl
  · exact (Nat.zero_add _).symm

/-- The sum as 64 bits hold it. -/
theorem ofNat_meant (rows : List Row) (pid : Int32) (column : Fin 5) :
    UInt64.ofNat (meant rows pid column) = (rows.map fun r => r.given pid column).sum := by
  induction rows with
  | nil => rfl
  | cons r rows ih =>
    rw [meant_cons, UInt64.ofNat_add, UInt64.ofNat_toNat, ih, List.map_cons, List.sum_cons]

/-! ### Rows whose name is not one word -/

/-- Everything of a row in front of the last number. -/
def Row.start (r : Row) : Bytes := r.name.last ++ columns r.numbers.dropLast

theorem lastLine_eq (r : Row) :
    ∃ y, r.lastLine ++ [newline] = r.start ++ 32 :: y := by
  refine ⟨blanks (r.gaps 5) ++ (decimal (r.vals 4).toNat ++ (blanks r.tail ++ [newline])), ?_⟩
  have hnumbers : r.numbers = r.numbers.dropLast ++ [(r.gaps 5, (r.vals 4).toNat)] := rfl
  rw [Row.lastLine, Row.rest, Row.start]
  nth_rewrite 1 [hnumbers]
  rw [columns, List.flatMap_append]
  simp [columns, blanks, List.replicate_succ]

/-- **Words enough hide what follows.** -/
theorem scanLine_append {x : Bytes} (hx : 7 ≤ (words x).length) (hzero : 0 ∉ x) (y : Bytes) :
    scanLine (x ++ 32 :: y) = scanLine x := by
  have hne : words x ≠ [] := List.length_pos_iff.mp (by omega)
  have hself : x.takeWhile (· ≠ 0) = x :=
    List.takeWhile_eq_self_iff.mpr fun c hc => by simpa using ne_of_mem_of_not_mem hc hzero
  have htake : (x ++ 32 :: y).takeWhile (· ≠ 0) = x ++ 32 :: y.takeWhile (· ≠ 0) := by
    rw [List.takeWhile_append_of_pos (List.takeWhile_eq_self_iff.mp hself)]
    simp
  rw [scanLine, scanLine, hself, htake, (oneWord_scanString 127).append _ hne (by decide)]
  cases hname : scanString 127 x with
  | none => rfl
  | some name =>
    have h₁ := (oneWord_scanString 127).words_le (v := name.1) (r := name.2) hname
    have hne₁ : words name.2 ≠ [] := List.length_pos_iff.mp (by omega)
    rw [Option.map_some, Option.bind_some, Option.bind_some,
      oneWord_scanNumber.append _ hne₁ (by decide)]
    cases hpid : scanNumber name.2 with
    | none => rfl
    | some pid =>
      have h₂ := oneWord_scanNumber.words_le (v := pid.1) (r := pid.2) hpid
      rw [Option.map_some, Option.bind_some, Option.bind_some,
        scanNumbers_append _ (by omega) (by decide), Option.map_map]
      rfl

/-- Without a word in the name there are too few words. -/
theorem scanLine_lastLine_of_nil {r : Row} (h : words r.name.last = []) :
    scanLine (r.lastLine ++ [newline]) = none := by
  have hwords := words_lastLine r
  have hpid : (decimal r.pid).length ≤ 127 :=
    Nat.le_trans (length_decimal_le (k := 10) (by decide) (Nat.lt_trans r.pid_lt (by decide)))
      (by decide)
  rw [h, List.nil_append, Row.numbers, numbers, List.map_cons, List.map_ofFn] at hwords
  obtain ⟨r₁, h₁, hr₁⟩ := scanString_of_words hwords hpid
  have hvals : words r₁ = decimal (r.vals 0).toNat ::
      (List.ofFn fun i : Fin 4 => (r.vals i.succ).toNat).map decimal := by
    rw [hr₁, List.map_ofFn]
    rfl
  obtain ⟨r₂, h₂, hr₂⟩ := scanNumber_of_words hvals
  rw [scanLine, takeWhile_lastLine, h₁, Option.bind_some, h₂, Option.bind_some,
    scanNumbers_of_few (by rw [List.length_ofFn]; decide) hr₂]
  rfl

/-- **Of a row whose name is not one word, the last number is not read.** -/
theorem read_lastLine_congr {r r' : Row} (h : ¬ r.name.Plain) (hname : r'.name = r.name)
    (hstart : r'.start = r.start) (pid : Int32) (column : Fin 5) :
    read pid column (r'.lastLine ++ [newline]) = read pid column (r.lastLine ++ [newline]) := by
  by_cases hnil : words r.name.last = []
  · rw [read_of_none (scanLine_lastLine_of_nil hnil),
      read_of_none (scanLine_lastLine_of_nil (hname ▸ hnil))]
  · have hmany : 7 ≤ (words r.start).length := by
      have hpos := List.length_pos_iff.mpr hnil
      have hnumbers : r.numbers.dropLast.length = 5 := rfl
      rw [Row.start, words_append_columns, List.length_append, List.length_map, hnumbers]
      simp only [Comm.Plain] at h
      omega
    obtain ⟨y, hy⟩ := lastLine_eq r
    have hzero : 0 ∉ r.start := fun hmem => by
      obtain ⟨-, -, hno⟩ := lastLine_spec r
      have hline : 0 ∈ r.lastLine ++ [newline] := by
        rw [hy]
        exact List.mem_append_left _ hmem
      rcases List.mem_append.mp hline with hline | hline
      · exact hno hline
      · simp [newline] at hline
    obtain ⟨y', hy'⟩ := lastLine_eq r'
    rw [read, read, hy, hy', hstart, scanLine_append hmany hzero, scanLine_append hmany hzero]

/-! ### The sum of a table -/

section Moving

variable {a b c d e f g h : UInt64}

theorem eq_iff_of_add (heq : a + b = c + d) : a = c ↔ d = b := by
  constructor <;> grind

theorem move_plain (heq : a + b = c + (d + e)) : f + g + a + b = g + c + (f + d + e) := by
  grind

theorem move_misread (heq : a + b = c + (d + e)) :
    f + g + a + (h + b) = h + c + (f + d + (g + e)) := by
  grind

end Moving

/-- What the rows add, and what they ought to add, differ by the misread ones. -/
theorem sum_read_add (rows : List Row) (pid : Int32) (column : Fin 5) :
    (rows.map fun r => readText pid column (r.text ++ [newline])).sum +
        ((rows.filter fun r => ¬ r.name.Plain).map fun r => r.given pid column).sum =
      (rows.map fun r => r.given pid column).sum +
        ((rows.map fun r => readText pid column r.name.front).sum +
          ((rows.filter fun r => ¬ r.name.Plain).map fun r =>
            read pid column (r.lastLine ++ [newline])).sum) := by
  induction rows with
  | nil => rfl
  | cons r rows ih =>
    simp only [List.map_cons, List.sum_cons, List.filter_cons, decide_eq_true_eq]
    rw [readText_row r]
    by_cases hplain : r.name.Plain
    · rw [if_neg (not_not.mpr hplain), read_lastLine_of_plain hplain]
      exact move_plain ih
    · rw [if_pos hplain, List.map_cons, List.sum_cons, List.map_cons, List.sum_cons]
      exact move_misread ih

/-- **When the sum of a table is right**: it fits, and what is read inside names and from misread
rows is what the misread rows are meant to add. -/
theorem right_table_iff (t : Table) (pid : Int32) (column : Fin 5) :
    Right t pid column ↔ meant t.rows pid column < 2 ^ 64 ∧
      (t.rows.map fun r => readText pid column r.name.front).sum +
          (t.misread.map fun r => read pid column (r.lastLine ++ [newline])).sum =
        (t.misread.map fun r => r.given pid column).sum := by
  have hsum := eq_iff_of_add (sum_read_add t.rows pid column)
  rw [← ofNat_meant t.rows] at hsum
  rw [Table.misread, ← hsum]
  simp only [Right, maliSumForPid_text, Prod.mk.injEq, true_and, Option.some.injEq,
    exists_eq_left']
  constructor
  · intro h
    have hlt : meant t.rows pid column < 2 ^ 64 := h ▸ UInt64.toNat_lt _
    exact ⟨hlt, by rw [← h, UInt64.ofNat_toNat]⟩
  · rintro ⟨hlt, heq⟩
    rw [heq, UInt64.toNat_ofNat_of_lt' hlt]

/-! ### All tables with given names -/

/-- A row of process 1 that asks for nothing, or for a byte in the last column. -/
def Row.sample (n : Comm) (b : Bool) : Row where
  name := n
  pid := 1
  vals := fun i => if i = 4 ∧ b then 1 else 0
  gaps := fun _ => 0
  tail := 0
  pid_lt := by decide
  fits := by
    have hlen := n.length_le
    have hrest : (columns (Memtrack.numbers 1 (fun i => if i = 4 ∧ b then 1 else 0) fun _ => 0) ++
        blanks 0).length = 12 := by
      cases b <;> decide
    rw [List.length_append, hrest]
    omega

/-- A table with nothing but rows. -/
def tableOf (rows : List Row) : Table := ⟨⟨[], by simp, by simp⟩, ⟨0, by simp⟩, rows, []⟩

/-- Rows that ask for nothing. -/
theorem meant_samples (names : List Comm) (pid : Int32) (column : Fin 5) :
    meant (names.map fun n => .sample n false) pid column = 0 := by
  induction names with
  | nil => rfl
  | cons n names ih =>
    rw [List.map_cons, meant_cons, ih]
    simp [Row.given, Row.sample]

theorem misread_eq_nil {t : Table} (h : ∀ n ∈ t.rows.map Row.name, n.Plain) : t.misread = [] := by
  refine List.filter_eq_nil_iff.mpr fun r hr => ?_
  simpa using h r.name (List.mem_map_of_mem hr)

/-- When all names are one word, only the lines inside them matter. -/
theorem right_iff_of_plain {t : Table} (h : ∀ n ∈ t.rows.map Row.name, n.Plain) (pid : Int32)
    (column : Fin 5) :
    Right t pid column ↔ meant t.rows pid column < 2 ^ 64 ∧
      ((t.rows.map Row.name).map fun n => readText pid column n.front).sum = 0 := by
  rw [right_table_iff, misread_eq_nil h, List.map_map]
  simp only [List.map_nil, List.sum_nil, UInt64.add_zero]
  rfl

/-- Rows that ask for nothing, but for the last number of one of them. -/
def samples (pre : List Comm) (n : Comm) (post : List Comm) (b : Bool) : List Row :=
  pre.map (.sample · false) ++ .sample n b :: post.map (.sample · false)

theorem meant_samples_at (pre : List Comm) (n : Comm) (post : List Comm) (b : Bool) (pid : Int32)
    (column : Fin 5) :
    meant (samples pre n post b) pid column = ((Row.sample n b).given pid column).toNat := by
  rw [samples, meant_append, meant_cons, meant_samples, meant_samples, Nat.zero_add, Nat.add_zero]

theorem name_samples (pre : List Comm) (n : Comm) (post : List Comm) (b : Bool) :
    (samples pre n post b).map Row.name = pre ++ n :: post := by
  simp [samples, Function.comp_def, Row.sample]

/-- **A name that is not one word is never safe.** -/
theorem not_right_samples {n : Comm} (h : ¬ n.Plain) (pre post : List Comm) :
    ¬ ∀ b, Right (tableOf (samples pre n post b)) 1 4 := by
  intro hright
  obtain ⟨s, hs, hmeant⟩ := hright false
  obtain ⟨s', hs', hmeant'⟩ := hright true
  have hread : ∀ b, readText 1 4 ((Row.sample n b).text ++ [newline]) =
      readText 1 4 ((Row.sample n false).text ++ [newline]) := by
    intro b
    have hline : read 1 4 ((Row.sample n b).lastLine ++ [newline]) =
        read 1 4 ((Row.sample n false).lastLine ++ [newline]) :=
      @read_lastLine_congr (.sample n false) (.sample n b) h rfl (by cases b <;> rfl) 1 4
    rw [readText_row, readText_row, hline]
    rfl
  rw [maliSumForPid_text] at hs hs'
  simp only [tableOf, samples, List.map_append, List.map_cons, hread true] at hs hs'
  obtain rfl : s = s' := by
    rw [hs] at hs'
    simpa using hs'
  rw [hmeant] at hmeant'
  simp only [tableOf, meant_samples_at] at hmeant'
  revert hmeant'
  simp [Row.given, Row.sample]

/-- **For which names the sum is always right**: for those that are one word after their last
newline, if the lines in front of it add nothing in total. -/
theorem right_names_iff (names : List Comm) :
    (∀ t : Table, t.rows.map Row.name = names → t.Fits →
        ∀ pid, ∀ column ∈ usedColumns, Right t pid column) ↔
      (∀ n ∈ names, n.Plain) ∧ ∀ pid, ∀ column ∈ usedColumns,
        (names.map fun n => readText pid column n.front).sum = 0 := by
  constructor
  · intro h
    have hplain : ∀ n ∈ names, n.Plain := by
      intro n hn
      by_contra hnot
      obtain ⟨pre, post, rfl⟩ := List.append_of_mem hn
      refine not_right_samples hnot pre post fun b => ?_
      refine h (tableOf (samples pre n post b)) (name_samples pre n post b) (fun pid column => ?_) 1
        4 (by decide)
      exact (meant_samples_at pre n post b pid column) ▸ UInt64.toNat_lt _
    refine ⟨hplain, fun pid column hcolumn => ?_⟩
    have hnames : (tableOf (names.map (.sample · false))).rows.map Row.name = names := by
      simp [tableOf, Function.comp_def, Row.sample]
    have hright := h _ hnames (fun pid column => by
      rw [tableOf, meant_samples]
      decide) pid column hcolumn
    rw [right_iff_of_plain (hnames.symm ▸ hplain), hnames] at hright
    exact hright.2
  · rintro ⟨hplain, hzero⟩ t rfl hfits pid column hcolumn
    exact (right_iff_of_plain hplain pid column).mpr ⟨hfits pid column, hzero pid column hcolumn⟩

/-- **When the sum is right.** For one table, any process and column: if the sum fits, and what is
read from lines inside names and from the rows whose name is not one word is what these rows hold
for the process. For all tables with the same names, all processes and both columns that are asked
for: if every name is one word after its last newline, and the lines in front of it add nothing in
total. -/
theorem right_iff (t : Table) :
    (∀ (pid : Int32) (column : Fin 5),
      Right t pid column ↔ meant t.rows pid column < 2 ^ 64 ∧
        (t.rows.map fun r => readText pid column r.name.front).sum +
            (t.misread.map fun r => read pid column (r.lastLine ++ [newline])).sum =
          (t.misread.map fun r => r.given pid column).sum) ∧
    ((∀ s : Table, s.rows.map Row.name = t.rows.map Row.name → s.Fits →
        ∀ pid, ∀ column ∈ usedColumns, Right s pid column) ↔
      (∀ r ∈ t.rows, r.name.Plain) ∧ ∀ pid, ∀ column ∈ usedColumns,
        (t.rows.map fun r => readText pid column r.name.front).sum = 0) := by
  refine ⟨right_table_iff t, ?_⟩
  rw [right_names_iff, List.forall_mem_map]
  simp only [List.map_map, Function.comp_def]

/-- A row of process 1 whose thread is called `a b` is passed over. -/
theorem right_not_always :
    ¬ ∀ (t : Table) (pid : Int32), ∀ column ∈ usedColumns, Right t pid column := by
  intro h
  obtain ⟨s, hs, hmeant⟩ :=
    h (tableOf [.sample ⟨[97, 32, 98], by decide, by decide, by decide⟩ true]) 1 4 (by decide)
  have hzero : maliSumForPid (.ok (tableOf
      [.sample ⟨[97, 32, 98], by decide, by decide, by decide⟩ true]).text) 1 4 = (0, some 0) := by
    decide +kernel
  obtain rfl : s = 0 := by
    rw [hzero] at hs
    simpa using hs.symm
  revert hmeant
  decide

end Memtrack

end A1000
