import A1000.Lib.Bytes
import Mathlib.Data.List.TakeWhile

/-!
# Reading text through a buffer

`fgets` hands a stream out in pieces: up to the next newline, but never more than the buffer holds,
so that a long line comes in several pieces. `sscanf` takes a piece apart: `%ns` reads a word, `%d`
and `%llu` read a number that a blank need not follow.

A stream, a piece and a word are byte strings; the zero that closes a string in memory is not one of
its bytes.

## Main definitions

* `Stdio.fgets`, `Stdio.chunks` — one piece, and all pieces of a stream
* `Stdio.words` — the words of a text, blanks being all that separates them
* `Stdio.scanString`, `Stdio.scanNumber`, `Stdio.scanNumbers` — the conversions
* `Stdio.decimal` — a number as `%u` prints it

## Main results

* `Stdio.chunks_flatMap` — no piece reaches over the end of a line
* `Stdio.scanString_of_words` — a word that fits is read whole
* `Stdio.scanNumbers_append` — conversions that find words enough do not see what follows
* `Stdio.scanNumber_of_words`, `Stdio.scanNumbers_of_words` — reading back what was printed
-/

namespace Stdio

open Bytes (isSpace sign sign_append exists_sign)

/-! ### Pieces -/

def newline : UInt8 := 10

/-- `fgets` with room for `size` bytes: the piece, and what is left of the stream. -/
def fgets (size : ℕ) (s : Bytes) : Bytes × Bytes :=
  let k := min ((s.takeWhile (· ≠ newline)).length + 1) (size - 1)
  (s.take k, s.drop k)

/-- What the calls of `fgets` give until the stream ends. -/
def readLines (size : ℕ) : ℕ → Bytes → List Bytes
  | 0, _ => []
  | fuel + 1, s =>
    if s = [] then [] else (fgets size s).1 :: readLines size fuel (fgets size s).2

/-- All pieces of a stream: no piece is empty, and so there are no more of them than bytes. -/
def chunks (size : ℕ) (s : Bytes) : List Bytes := readLines size s.length s

/-- The text ends with a newline, if it is not empty. -/
def Ended (s : Bytes) : Prop := ∀ c ∈ s.getLast?, c = newline

section Pieces

variable {size : ℕ}

theorem length_fgets_snd_lt (hsize : 1 < size) {s : Bytes} (hs : s ≠ []) :
    (fgets size s).2.length < s.length := by
  have hpos := List.length_pos_iff.mpr hs
  simp only [fgets, List.length_drop]
  omega

theorem readLines_of_le (hsize : 1 < size) {fuel : ℕ} {s : Bytes} (h : s.length ≤ fuel) :
    readLines size fuel s = chunks size s := by
  have hany : ∀ (n m : ℕ) (s : Bytes), s.length ≤ n → s.length ≤ m →
      readLines size n s = readLines size m s := by
    intro n
    induction n with
    | zero =>
      intro m s hn _
      obtain rfl := List.length_eq_zero_iff.mp (Nat.le_zero.mp hn)
      cases m <;> simp [readLines]
    | succ n ih =>
      intro m s hn hm
      by_cases hs : s = []
      · subst hs
        cases m <;> simp [readLines]
      · have hlt := length_fgets_snd_lt hsize hs
        obtain ⟨m, rfl⟩ : ∃ k, m = k + 1 := ⟨m - 1, by omega⟩
        rw [readLines, readLines, if_neg hs, if_neg hs, ih m _ (by omega) (by omega)]
  exact hany _ _ _ h (Nat.le_refl _)

@[simp] theorem chunks_nil : chunks size [] = [] := rfl

theorem chunks_of_ne_nil (hsize : 1 < size) {s : Bytes} (hs : s ≠ []) :
    chunks size s = (fgets size s).1 :: chunks size (fgets size s).2 := by
  have hlt := length_fgets_snd_lt hsize hs
  obtain ⟨n, hn⟩ : ∃ n, s.length = n + 1 := ⟨s.length - 1, by omega⟩
  rw [chunks, hn, readLines, if_neg hs, readLines_of_le hsize (by omega)]

theorem newline_mem_of_ended {s : Bytes} (h : Ended s) (hs : s ≠ []) : newline ∈ s := by
  have hlast := List.getLast?_eq_getLast_of_ne_nil hs
  have hc := h _ hlast
  rw [← hc]
  exact List.getLast_mem hs

theorem length_takeWhile_lt {s : Bytes} (h : newline ∈ s) :
    (s.takeWhile (· ≠ newline)).length < s.length := by
  induction s with
  | nil => cases h
  | cons c s ih =>
    by_cases hc : c = newline
    · simp [hc]
    · have hs : newline ∈ s := (List.mem_cons.mp h).resolve_left (Ne.symm hc)
      simp [hc]
      simpa using ih hs

/-- What follows a newline does not change the pieces in front of it. -/
theorem fgets_append {s : Bytes} (h : Ended s) (hs : s ≠ []) (rest : Bytes) :
    fgets size (s ++ rest) = ((fgets size s).1, (fgets size s).2 ++ rest) := by
  have hlt := length_takeWhile_lt (newline_mem_of_ended h hs)
  have htake : (s ++ rest).takeWhile (· ≠ newline) = s.takeWhile (· ≠ newline) := by
    rw [List.takeWhile_append, if_neg (Nat.ne_of_lt hlt)]
  simp only [fgets, htake]
  rw [List.take_append_of_le_length (by omega), List.drop_append_of_le_length (by omega)]

theorem ended_fgets_snd {s : Bytes} (h : Ended s) : Ended (fgets size s).2 := by
  intro c hc
  simp only [fgets, List.getLast?_drop] at hc
  split_ifs at hc
  · cases hc
  · exact h c hc

/-- **No piece reaches over the end of a line.** -/
theorem chunks_append (hsize : 1 < size) {s : Bytes} (h : Ended s) (rest : Bytes) :
    chunks size (s ++ rest) = chunks size s ++ chunks size rest := by
  obtain ⟨n, hn⟩ : ∃ n, s.length = n := ⟨_, rfl⟩
  induction n using Nat.strong_induction_on generalizing s with
  | h n ih =>
    by_cases hs : s = []
    · rw [hs, List.nil_append, chunks_nil, List.nil_append]
    · have hlt := length_fgets_snd_lt hsize hs
      rw [chunks_of_ne_nil hsize (s := s ++ rest) (by simp [hs]), fgets_append h hs,
        ih _ (by omega) (ended_fgets_snd h) rfl, chunks_of_ne_nil hsize hs, List.cons_append]

theorem ended_append_newline (l : Bytes) : Ended (l ++ [newline]) := by
  intro c hc
  simpa using hc.symm

/-- The pieces of a text are the pieces of its lines. -/
theorem chunks_flatMap (hsize : 1 < size) (lines : List Bytes) :
    chunks size (lines.flatMap (· ++ [newline])) =
      lines.flatMap fun l => chunks size (l ++ [newline]) := by
  induction lines with
  | nil => rfl
  | cons l lines ih =>
    rw [List.flatMap_cons, List.flatMap_cons, chunks_append hsize (ended_append_newline l), ih]

/-- A line that fits is one piece. -/
theorem chunks_of_short {l : Bytes} (hl : newline ∉ l) (h : l.length + 1 < size) :
    chunks size (l ++ [newline]) = [l ++ [newline]] := by
  have htake : (l ++ [newline]).takeWhile (· ≠ newline) = l := by
    have hne : ∀ c ∈ l, decide (c ≠ newline) = true := fun c hc => by
      simpa using ne_of_mem_of_not_mem hc hl
    rw [List.takeWhile_append_of_pos hne]
    simp
  have hmin : min (l.length + 1) (size - 1) = (l ++ [newline]).length := by
    rw [List.length_append, List.length_singleton]
    omega
  rw [chunks_of_ne_nil (by omega) (by simp)]
  simp only [fgets, htake, hmin, List.take_length, List.drop_length, chunks_nil]

end Pieces

/-! ### Words -/

/-- The words of a text. -/
def words (s : Bytes) : List Bytes := (s.splitOnP isSpace).filter (· ≠ [])

@[simp] theorem words_nil : words [] = [] := rfl

/-- A blank separates. -/
theorem words_append_cons {c : UInt8} (hc : isSpace c = true) (x y : Bytes) :
    words (x ++ c :: y) = words x ++ words y := by
  rw [words, List.splitOnP_append_cons x y hc, List.filter_append]
  rfl

theorem words_cons {c : UInt8} (hc : isSpace c = true) (y : Bytes) : words (c :: y) = words y :=
  words_append_cons hc [] y

theorem words_of_word {w : Bytes} (hne : w ≠ []) (h : ∀ c ∈ w, isSpace c = false) :
    words w = [w] := by
  rw [words, List.splitOnP_eq_singleton h]
  simpa using hne

theorem words_dropWhile (s : Bytes) : words (s.dropWhile isSpace) = words s := by
  induction s with
  | nil => rfl
  | cons c s ih =>
    cases hc : isSpace c with
    | false => rw [List.dropWhile_cons_of_neg (by simp [hc])]
    | true => rw [List.dropWhile_cons_of_pos hc, ih, words_cons hc]

theorem words_blanks_append {b : Bytes} (h : ∀ c ∈ b, isSpace c = true) (y : Bytes) :
    words (b ++ y) = words y := by
  rw [← words_dropWhile (b ++ y), List.dropWhile_append_of_pos h, words_dropWhile]

theorem words_append_blanks {b : Bytes} (h : ∀ c ∈ b, isSpace c = true) (x : Bytes) :
    words (x ++ b) = words x := by
  cases b with
  | nil => rw [List.append_nil]
  | cons c b =>
    have hb := words_blanks_append (b := b) (fun d hd => h d (List.mem_cons_of_mem c hd)) []
    rw [words_append_cons (h c List.mem_cons_self), ← List.append_nil b, hb, words_nil,
      List.append_nil]

theorem words_eq_nil_iff {s : Bytes} : words s = [] ↔ ∀ c ∈ s, isSpace c = true := by
  constructor
  · intro h
    induction s with
    | nil => simp
    | cons c s ih =>
      cases hc : isSpace c with
      | true =>
        rw [words_cons hc] at h
        simpa [hc] using ih h
      | false =>
        obtain ⟨w, ws, hw⟩ := List.exists_cons_of_ne_nil (List.splitOnP_ne_nil isSpace s)
        simp [words, List.splitOnP_cons_eq_if_modifyHead, hc, hw] at h
  · intro h
    have hb := words_blanks_append h []
    rwa [List.append_nil] at hb

/-- The first word of a text that begins with one. -/
theorem words_eq_cons {s : Bytes} (hs : s ≠ []) (hhead : ∀ c ∈ s.head?, isSpace c = false) :
    s.takeWhile (!isSpace ·) ≠ [] ∧
      words s = s.takeWhile (!isSpace ·) :: words (s.dropWhile (!isSpace ·)) := by
  have hne : s.takeWhile (!isSpace ·) ≠ [] := by
    obtain ⟨c, s, rfl⟩ := List.exists_cons_of_ne_nil hs
    simp [hhead c rfl]
  have hword : words (s.takeWhile (!isSpace ·)) = [s.takeWhile (!isSpace ·)] :=
    words_of_word hne fun c hc => by
      simpa using List.mem_takeWhile_imp (p := (!isSpace ·)) hc
  refine ⟨hne, ?_⟩
  cases hdrop : s.dropWhile (!isSpace ·) with
  | nil =>
    conv_lhs => rw [← List.takeWhile_append_dropWhile (p := (!isSpace ·)) (l := s), hdrop,
      List.append_nil, hword]
    rfl
  | cons c y =>
    have hc : isSpace c = true := by
      simpa [hdrop] using List.head?_dropWhile_not (!isSpace ·) s
    conv_lhs => rw [← List.takeWhile_append_dropWhile (p := (!isSpace ·)) (l := s), hdrop,
      words_append_cons hc, hword]
    rw [words_cons hc]
    rfl

/-- Bytes without a blank make at most one word more. -/
theorem length_words_append_le {x : Bytes} (hx : ∀ c ∈ x, isSpace c = false) (r : Bytes) :
    (words (x ++ r)).length ≤ (words r).length + 1 := by
  have hdrop : (words (r.dropWhile (!isSpace ·))).length ≤ (words r).length := by
    cases r with
    | nil => exact Nat.le_refl _
    | cons c r =>
      cases hc : isSpace c with
      | true => rw [List.dropWhile_cons_of_neg (by simp [hc])]
      | false =>
        rw [(words_eq_cons (List.cons_ne_nil c r) (by simp [hc])).2, List.length_cons]
        exact Nat.le_succ _
  cases x with
  | nil => exact Nat.le_succ _
  | cons c x =>
    have hall : ∀ d ∈ c :: x, (!isSpace d) = true := fun d hd => by simp [hx d hd]
    rw [(words_eq_cons (s := (c :: x) ++ r) (by simp) (by simp [hx c])).2,
      List.dropWhile_append_of_pos hall, List.length_cons]
    exact Nat.succ_le_succ hdrop

/-! ### Conversions -/

/-- `%ns`: a word of at most `n` bytes, and what follows it. -/
def scanString (n : ℕ) (s : Bytes) : Option ({w : Bytes // w.length ≤ n} × Bytes) :=
  let s := s.dropWhile isSpace
  let w := (s.takeWhile fun c => !isSpace c).take n
  if w = [] then none else some (⟨w, List.length_take_le ..⟩, s.drop w.length)

def isDigit (c : UInt8) : Bool := 48 ≤ c ∧ c ≤ 57

/-- The number that digits stand for. -/
def natOf (ds : Bytes) : ℕ := ds.foldl (fun n c => 10 * n + (c.toNat - 48)) 0

/-- `%d` and `%llu`: a number, as a sign and digits, and what follows it. -/
def scanNumber (s : Bytes) : Option ((Bool × ℕ) × Bytes) :=
  let r := sign (s.dropWhile isSpace)
  let ds := r.2.takeWhile isDigit
  if ds = [] then none else some ((r.1, natOf ds), r.2.drop ds.length)

/-- The value that `%d` stores: `strtoimax` stays inside 64 bits, and an `int` keeps the lower
half of them. -/
def toInt (v : Bool × ℕ) : Int32 :=
  Int32.ofInt (if v.1 then max (-2 ^ 63) (-(v.2 : ℤ)) else min (v.2 : ℤ) (2 ^ 63 - 1))

/-- The value that `%llu` stores: `strtoumax` takes a number that is too large for the largest, and
a sign for the negative modulo 2⁶⁴. -/
def toUInt64 (v : Bool × ℕ) : UInt64 :=
  if v.2 < 2 ^ 64 then if v.1 then -UInt64.ofNat v.2 else UInt64.ofNat v.2
  else UInt64.ofNat (2 ^ 64 - 1)

/-- Some numbers one after another. -/
def scanNumbers : ℕ → Bytes → Option (List (Bool × ℕ) × Bytes)
  | 0, s => some ([], s)
  | n + 1, s => (scanNumber s).bind fun r =>
    (scanNumbers n r.2).map fun q => (r.1 :: q.1, q.2)

theorem drop_length_takeWhile (p : UInt8 → Bool) (s : Bytes) :
    s.drop (s.takeWhile p).length = s.dropWhile p := by
  have hleft : (s.takeWhile p ++ s.dropWhile p).drop (s.takeWhile p).length = s.dropWhile p :=
    List.drop_left
  rwa [List.takeWhile_append_dropWhile] at hleft

/-- Where the first word of a text lies. -/
theorem exists_of_words_eq_cons {s w : Bytes} {ws : List Bytes} (h : words s = w :: ws) :
    ∃ rest, s.dropWhile isSpace = w ++ rest ∧ (w ++ rest).takeWhile (!isSpace ·) = w ∧ w ≠ [] ∧
      (∀ c ∈ rest.head?, isSpace c = true) ∧ words rest = ws := by
  have hs : s.dropWhile isSpace ≠ [] := by
    intro hnil
    rw [← words_dropWhile, hnil] at h
    cases h
  have hhead : ∀ c ∈ (s.dropWhile isSpace).head?, isSpace c = false := by
    intro c hc
    simpa [Option.mem_def.mp hc] using List.head?_dropWhile_not isSpace s
  obtain ⟨hne, hwords⟩ := words_eq_cons hs hhead
  rw [words_dropWhile, h] at hwords
  obtain ⟨rfl, rfl⟩ := List.cons.inj hwords
  have happend := List.takeWhile_append_dropWhile (p := (!isSpace ·)) (l := s.dropWhile isSpace)
  refine ⟨(s.dropWhile isSpace).dropWhile (!isSpace ·), happend.symm, by rw [happend], hne,
    fun c hc => ?_, rfl⟩
  simpa [Option.mem_def.mp hc] using
    List.head?_dropWhile_not (!isSpace ·) (s.dropWhile isSpace)

theorem length_le_of_words_eq_cons {s w : Bytes} {ws : List Bytes} (h : words s = w :: ws) :
    w.length ≤ s.length := by
  obtain ⟨rest, hs, -⟩ := exists_of_words_eq_cons h
  have hle := (List.dropWhile_suffix (p := isSpace) (l := s)).length_le
  rw [hs, List.length_append] at hle
  omega

/-- **A word that fits is read whole.** -/
theorem scanString_of_words {n : ℕ} {s w : Bytes} {ws : List Bytes} (h : words s = w :: ws)
    (hw : w.length ≤ n) :
    ∃ rest, scanString n s = some (⟨w, hw⟩, rest) ∧ words rest = ws := by
  obtain ⟨rest, hs, htake, hne, -, hrest⟩ := exists_of_words_eq_cons h
  refine ⟨rest, ?_, hrest⟩
  simp only [scanString, hs, htake, List.take_of_length_le hw, if_neg hne, List.drop_left]

/-- No word is read where there is none. -/
theorem scanString_of_blanks (n : ℕ) {s : Bytes} (h : words s = []) : scanString n s = none := by
  have hdrop : s.dropWhile isSpace = [] :=
    List.dropWhile_eq_nil_iff.mpr (words_eq_nil_iff.mp h)
  simp [scanString, hdrop]

/-- **A scan that starts with a word** fails if it fails behind the first one. -/
theorem bind_scanString_eq_none {β : Type} {n : ℕ} {s : Bytes}
    {f : {w : Bytes // w.length ≤ n} × Bytes → Option β} (hfit : ∀ w ∈ words s, w.length ≤ n)
    (h : ∀ w rest, words s = w.1 :: words rest → f (w, rest) = none) :
    (scanString n s).bind f = none := by
  rcases hs : words s with - | ⟨w, ws⟩
  · rw [scanString_of_blanks n hs]
    rfl
  · obtain ⟨rest, hscan, hrest⟩ := scanString_of_words hs (hfit w (by simp [hs]))
    rw [hscan, Option.bind_some]
    exact h _ rest (hs.trans (congrArg (w :: ·) hrest.symm))

theorem suffix_of_scanString {n : ℕ} {s r : Bytes} {w : {w : Bytes // w.length ≤ n}}
    (h : scanString n s = some (w, r)) : r <:+ s := by
  simp only [scanString] at h
  split_ifs at h
  obtain ⟨-, rfl⟩ := Prod.mk.inj (Option.some.inj h)
  exact (List.drop_suffix _ _).trans (List.dropWhile_suffix _)

theorem scanNumber_of_blanks {s : Bytes} (h : words s = []) : scanNumber s = none := by
  have hdrop : s.dropWhile isSpace = [] :=
    List.dropWhile_eq_nil_iff.mpr (words_eq_nil_iff.mp h)
  simp [scanNumber, hdrop, sign]

/-! ### What a conversion sees -/

/-- A conversion that finds a word does not see what follows the blank behind it, and uses up no
more than one word. -/
structure OneWord {α : Type} (conv : Bytes → Option (α × Bytes)) : Prop where
  append : ∀ {x : Bytes} {c : UInt8} (y : Bytes), words x ≠ [] → isSpace c = true →
    conv (x ++ c :: y) = (conv x).map fun r => (r.1, r.2 ++ c :: y)
  words_le : ∀ {s : Bytes} {v : α} {r : Bytes}, conv s = some (v, r) →
    (words s).length ≤ (words r).length + 1

theorem takeWhile_append_cons {p : UInt8 → Bool} {c : UInt8} (hc : p c = false) (x y : Bytes) :
    (x ++ c :: y).takeWhile p = x.takeWhile p := by
  rw [List.takeWhile_append]
  split_ifs with hlen
  · rw [List.takeWhile_cons_of_neg (by simp [hc]), List.append_nil]
    exact ((List.takeWhile_prefix p).eq_of_length hlen).symm
  · rfl

theorem dropWhile_append_cons {c : UInt8} {x : Bytes} (hx : words x ≠ []) (y : Bytes) :
    (x ++ c :: y).dropWhile isSpace = x.dropWhile isSpace ++ c :: y ∧
      x.dropWhile isSpace ≠ [] := by
  have hne : x.dropWhile isSpace ≠ [] := fun h =>
    hx (words_eq_nil_iff.mpr (List.dropWhile_eq_nil_iff.mp h))
  rw [List.dropWhile_append, if_neg (by simpa using hne)]
  exact ⟨rfl, hne⟩

/-- What is used up is one word, or the front of one. -/
theorem length_words_le {s x r : Bytes} (h : s.dropWhile isSpace = x ++ r)
    (hx : ∀ c ∈ x, isSpace c = false) : (words s).length ≤ (words r).length + 1 := by
  rw [← words_dropWhile s, h]
  exact length_words_append_le hx r

theorem oneWord_scanString (n : ℕ) : OneWord (scanString n) where
  append := by
    intro x c y hx hc
    obtain ⟨hdrop, -⟩ := dropWhile_append_cons (c := c) hx y
    simp only [scanString, hdrop, takeWhile_append_cons (p := fun c => !isSpace c) (c := c)
      (by simp [hc])]
    split_ifs with hw
    · rfl
    · rw [Option.map_some, List.drop_append_of_le_length]
      exact Nat.le_trans (List.length_take_le' _ _) (List.takeWhile_prefix _).length_le
  words_le := by
    intro s v r h
    simp only [scanString] at h
    split_ifs at h
    obtain ⟨-, rfl⟩ := Prod.mk.inj (Option.some.inj h)
    have hpre := (List.take_prefix n _).trans
      (List.takeWhile_prefix (fun c => !isSpace c) (l := s.dropWhile isSpace))
    refine length_words_le (List.prefix_iff_eq_append.mp hpre).symm fun c hc => ?_
    simpa using List.mem_takeWhile_imp (p := (!isSpace ·)) (List.mem_of_mem_take hc)

theorem isSpace_of_isDigit {c : UInt8} (h : isDigit c = true) : isSpace c = false := by
  simp only [isDigit, isSpace, decide_eq_true_eq, decide_eq_false_iff_not] at *
  grind

theorem not_isDigit_of_isSpace {c : UInt8} (h : isSpace c = true) : isDigit c = false := by
  cases hc : isDigit c with
  | false => rfl
  | true =>
    rw [isSpace_of_isDigit hc] at h
    cases h

theorem oneWord_scanNumber : OneWord scanNumber where
  append := by
    intro x c y hx hc
    obtain ⟨hdrop, hne⟩ := dropWhile_append_cons (c := c) hx y
    simp only [scanNumber, hdrop, sign_append hne,
      takeWhile_append_cons (not_isDigit_of_isSpace hc)]
    split_ifs with hw
    · rfl
    · rw [Option.map_some, List.drop_append_of_le_length (List.takeWhile_prefix _).length_le]
  words_le := by
    intro s v r h
    simp only [scanNumber] at h
    split_ifs at h with hw
    obtain ⟨-, rfl⟩ := Prod.mk.inj (Option.some.inj h)
    obtain ⟨x, hx, hnone⟩ := exists_sign (s.dropWhile isSpace)
    refine length_words_le (x := x ++ (sign (s.dropWhile isSpace)).2.takeWhile isDigit) ?_
      fun c hc => ?_
    · rw [drop_length_takeWhile, List.append_assoc, List.takeWhile_append_dropWhile, ← hx]
    · rcases List.mem_append.mp hc with hc | hc
      · exact hnone c hc
      · exact isSpace_of_isDigit (List.mem_takeWhile_imp hc)

/-- **Conversions that find words enough** do not see what follows. -/
theorem scanNumbers_append {n : ℕ} {x : Bytes} {c : UInt8} (y : Bytes)
    (hx : n ≤ (words x).length) (hc : isSpace c = true) :
    scanNumbers n (x ++ c :: y) = (scanNumbers n x).map fun r => (r.1, r.2 ++ c :: y) := by
  induction n generalizing x with
  | zero => rfl
  | succ n ih =>
    have hne : words x ≠ [] := List.length_pos_iff.mp (by omega)
    rw [scanNumbers, scanNumbers, oneWord_scanNumber.append y hne hc]
    cases hconv : scanNumber x with
    | none => rfl
    | some r =>
      have hle := oneWord_scanNumber.words_le (v := r.1) (r := r.2) hconv
      rw [Option.map_some, Option.bind_some, ih (by omega), Option.bind_some, Option.map_map,
        Option.map_map]
      rfl

/-! ### Numbers as they are printed -/

/-- The digits of a number, as `%u` prints them. -/
def decimal (n : ℕ) : Bytes :=
  if n = 0 then [48] else (Nat.digits 10 n).reverse.map fun d => 48 + d.toUInt8

/-- A byte that is the digit of a value below 10. -/
theorem digit_spec : ∀ d < 10, isDigit (48 + d.toUInt8) = true ∧
    (48 + d.toUInt8).toNat - 48 = d ∧ 48 + d.toUInt8 ≠ 43 ∧ 48 + d.toUInt8 ≠ 45 := by
  decide

theorem decimal_spec (n : ℕ) :
    ∃ ds : List ℕ, ds ≠ [] ∧ (∀ d ∈ ds, d < 10) ∧ decimal n = ds.map (fun d => 48 + d.toUInt8) ∧
      ds.foldl (fun n d => 10 * n + d) 0 = n := by
  rw [decimal]
  split_ifs with hn
  · exact ⟨[0], by simp, by simp, rfl, hn.symm⟩
  · refine ⟨(Nat.digits 10 n).reverse, ?_, fun d hd => ?_, rfl, ?_⟩
    · rwa [ne_eq, List.reverse_eq_nil_iff, Nat.digits_eq_nil_iff_eq_zero]
    · exact Nat.digits_lt_base (by decide) (List.mem_reverse.mp hd)
    · rw [Bytes.foldl_eq_ofDigits, List.reverse_reverse, Nat.ofDigits_digits]

theorem decimal_ne_nil (n : ℕ) : decimal n ≠ [] := by
  obtain ⟨ds, hne, -, hds, -⟩ := decimal_spec n
  simpa [hds] using hne

theorem isDigit_of_mem_decimal {n : ℕ} {c : UInt8} (h : c ∈ decimal n) : isDigit c = true := by
  obtain ⟨ds, -, hlt, hds, -⟩ := decimal_spec n
  rw [hds] at h
  obtain ⟨d, hd, rfl⟩ := List.mem_map.mp h
  exact (digit_spec d (hlt d hd)).1

theorem words_decimal (n : ℕ) : words (decimal n) = [decimal n] :=
  words_of_word (decimal_ne_nil n) fun _ hc => isSpace_of_isDigit (isDigit_of_mem_decimal hc)

theorem natOf_decimal (n : ℕ) : natOf (decimal n) = n := by
  obtain ⟨ds, -, hlt, hds, hval⟩ := decimal_spec n
  rw [hds, natOf, List.foldl_map]
  calc ds.foldl (fun n d => 10 * n + ((48 + d.toUInt8).toNat - 48)) 0
      = ds.foldl (fun n d => 10 * n + d) 0 :=
        List.foldl_ext _ _ _ fun n d hd => by rw [(digit_spec d (hlt d hd)).2.1]
    _ = n := hval

theorem length_decimal_le {n k : ℕ} (hk : 0 < k) (h : n < 10 ^ k) : (decimal n).length ≤ k := by
  rw [decimal]
  split_ifs with hn
  · exact hk
  · rw [List.length_map, List.length_reverse]
    exact (Nat.digits_length_le_iff (by decide) n).mpr h

/-- A printed number is no sign, and its digits end where a blank follows. -/
theorem decimal_append {n : ℕ} {rest : Bytes} (hrest : ∀ c ∈ rest.head?, isSpace c = true) :
    sign (decimal n ++ rest) = (false, decimal n ++ rest) ∧
      (decimal n ++ rest).takeWhile isDigit = decimal n := by
  have hdigit : ∀ d ∈ decimal n, isDigit d = true := fun d hd => isDigit_of_mem_decimal hd
  constructor
  · obtain ⟨c, cs, hcs⟩ := List.exists_cons_of_ne_nil (decimal_ne_nil n)
    have hc : isDigit c = true := hdigit c (by simp [hcs])
    rw [hcs, List.cons_append, sign]
    · exact fun _ heq => absurd hc (by rw [(List.cons.inj heq).1]; decide)
    · exact fun _ heq => absurd hc (by rw [(List.cons.inj heq).1]; decide)
  · rw [List.takeWhile_append_of_pos hdigit]
    cases rest with
    | nil => simp
    | cons c rest =>
      have hc : isDigit c = false := not_isDigit_of_isSpace (hrest c rfl)
      simp [hc]

/-- **Reading back what was printed.** -/
theorem scanNumber_of_words {n : ℕ} {s : Bytes} {ws : List Bytes}
    (h : words s = decimal n :: ws) :
    ∃ rest, scanNumber s = some ((false, n), rest) ∧ words rest = ws := by
  obtain ⟨rest, hs, -, hne, hhead, hrest⟩ := exists_of_words_eq_cons h
  obtain ⟨hsign, htake⟩ := decimal_append (n := n) hhead
  refine ⟨rest, ?_, hrest⟩
  simp only [scanNumber, hs, hsign, htake, if_neg hne, natOf_decimal, List.drop_left]

theorem scanNumbers_of_words {ns : List ℕ} {s : Bytes} {ws : List Bytes}
    (h : words s = ns.map decimal ++ ws) :
    ∃ rest, scanNumbers ns.length s = some (ns.map fun n => (false, n), rest) ∧
      words rest = ws := by
  induction ns generalizing s with
  | nil => exact ⟨s, rfl, h⟩
  | cons n ns ih =>
    obtain ⟨r, hr, hwords⟩ := scanNumber_of_words h
    obtain ⟨rest, hrest, hws⟩ := ih hwords
    exact ⟨rest, by simp [scanNumbers, hr, hrest], hws⟩

/-- More numbers than there are words cannot be read. -/
theorem scanNumbers_of_few {ns : List ℕ} {k : ℕ} (hk : ns.length < k) {s : Bytes}
    (h : words s = ns.map decimal) : scanNumbers k s = none := by
  induction ns generalizing s k with
  | nil =>
    obtain ⟨k, rfl⟩ : ∃ j, k = j + 1 := ⟨k - 1, by rw [List.length_nil] at hk; omega⟩
    rw [scanNumbers, scanNumber_of_blanks h]
    rfl
  | cons n ns ih =>
    rw [List.length_cons] at hk
    obtain ⟨k, rfl⟩ : ∃ j, k = j + 1 := ⟨k - 1, by omega⟩
    obtain ⟨r, hr, hwords⟩ := scanNumber_of_words h
    rw [scanNumbers, hr, Option.bind_some, ih (by omega) hwords]
    rfl

end Stdio
