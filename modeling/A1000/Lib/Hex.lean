import A1000.Lib.Bytes

/-!
# Hexadecimal numbers in byte strings

Writing a number with at least so many upper-case digits, and reading one the way Python's
`int(b, 16)` does: blanks around it, a sign, a `0x` in front and single underscores between the
digits are all accepted.

## Main definitions

* `Hex.format` — upper-case digits, filled up with zeros in front
* `Hex.parse` — `int(b, 16)`

## Main results

* `Hex.parse_map_digit` — reading upper-case digits
* `Hex.parse_format` — reading back what was written
* `Hex.nonneg_of_parse` — where negative numbers come from
* `Hex.length_format` — a number that fits has exactly the width asked for
-/

namespace Hex

open Bytes (isSpace sign sign_of_notMem)

/-! ### Writing -/

/-- The upper-case digit of a value below 16. -/
def digit (d : ℕ) : UInt8 := if d < 10 then (48 + d).toUInt8 else (55 + d).toUInt8

/-- The digits of a number, at least `w` of them, the highest first. -/
def digits (w n : ℕ) : List ℕ :=
  (Nat.digits 16 n ++ List.replicate (w - (Nat.digits 16 n).length) 0).reverse

/-- A number with at least `w` upper-case digits. -/
def format (w n : ℕ) : Bytes := (digits w n).map digit

/-! ### Reading -/

def underscore : UInt8 := 95

/-- The value of a digit of either case. -/
def value? (c : UInt8) : Option ℕ :=
  if 48 ≤ c ∧ c ≤ 57 then some (c.toNat - 48)
  else if 65 ≤ c ∧ c ≤ 70 then some (c.toNat - 55)
  else if 97 ≤ c ∧ c ≤ 102 then some (c.toNat - 87)
  else none

/-- The number at the beginning and what follows it; `prev` says that the last byte was an
underscore, which may be followed only by a digit. -/
def magnitude (acc : ℕ) (prev : Bool) : Bytes → Option (ℕ × Bytes)
  | [] => if prev then none else some (acc, [])
  | c :: rest =>
    if c = underscore then if prev then none else magnitude acc true rest
    else
      match value? c with
      | some d => magnitude (16 * acc + d) false rest
      | none => if prev then none else some (acc, c :: rest)

/-- What follows a `0x`, and an underscore behind it. -/
def dropPrefix : Bytes → Bytes
  | 48 :: x :: rest =>
    if x = 120 ∨ x = 88 then if rest.head? = some underscore then rest.tail else rest
    else 48 :: x :: rest
  | s => s

/-- Python's `int(b, 16)`. -/
def parse (b : Bytes) : Option Int :=
  let r := sign (b.dropWhile isSpace)
  let s := dropPrefix r.2
  -- there has to be a digit, and an underscore is none
  if (s.head?.bind value?).isNone then none
  else
    match magnitude 0 false s with
    | none => none
    | some (n, rest) => if rest.all isSpace then some (if r.1 then -n else n) else none

/-! ### Signs -/

/-- **Without a minus sign** a number is not negative. -/
theorem nonneg_of_parse {b : Bytes} {v : Int} (hminus : 45 ∉ b) (h : parse b = some v) :
    0 ≤ v := by
  have hsign : (sign (b.dropWhile isSpace)).1 = false :=
    sign_of_notMem fun hmem => hminus ((List.dropWhile_suffix _).mem hmem)
  rw [parse] at h
  simp only [hsign, Bool.false_eq_true, if_false] at h
  split at h
  · cases h
  · split at h
    · cases h
    · rename_i n rest _
      split_ifs at h
      exact Option.some.inj h ▸ Int.natCast_nonneg n

/-! ### Digits -/

/-- An upper-case digit is read as its value, and is nothing else. -/
theorem value?_digit : ∀ d < 16, value? (digit d) = some d ∧ isSpace (digit d) = false ∧
    digit d ≠ underscore ∧ digit d ≠ 43 ∧ digit d ≠ 45 ∧ digit d ≠ 120 ∧ digit d ≠ 88 := by
  decide

theorem magnitude_map_digit {ds : List ℕ} (h : ∀ d ∈ ds, d < 16) (acc : ℕ) :
    magnitude acc false (ds.map digit) = some (ds.foldl (fun n d => 16 * n + d) acc, []) := by
  induction ds generalizing acc with
  | nil => rfl
  | cons d ds ih =>
    obtain ⟨hvalue, -, hunder, -⟩ := value?_digit d (h d (by simp))
    rw [List.map_cons, magnitude, if_neg hunder, hvalue]
    exact ih (fun e he => h e (by simp [he])) _

/-- **Reading upper-case digits.** -/
theorem parse_map_digit {ds : List ℕ} (hne : ds ≠ []) (h : ∀ d ∈ ds, d < 16) :
    parse (ds.map digit) = some ((Nat.ofDigits 16 ds.reverse : ℕ) : Int) := by
  obtain ⟨d, ds, rfl⟩ := List.exists_cons_of_ne_nil hne
  obtain ⟨hvalue, hspace, hunder, hplus, hminus, -⟩ := value?_digit d (h d (by simp))
  have hdrop : ((d :: ds).map digit).dropWhile isSpace = (d :: ds).map digit := by
    simp [hspace]
  have hsign : sign ((d :: ds).map digit) = (false, (d :: ds).map digit) := by
    rw [List.map_cons, sign]
    · exact fun rest heq => hplus (List.cons.inj heq).1
    · exact fun rest heq => hminus (List.cons.inj heq).1
  have hbare : dropPrefix ((d :: ds).map digit) = (d :: ds).map digit := by
    cases ds with
    | nil => rw [List.map_cons, List.map_nil, dropPrefix]; simp
    | cons e ds =>
      obtain ⟨-, -, -, -, -, hx, hX⟩ := value?_digit e (h e (by simp))
      by_cases h0 : digit d = 48
      · simp [h0, dropPrefix, hx, hX]
      · simp [dropPrefix, h0]
  have hhead : (((d :: ds).map digit).head?.bind value?).isNone = false := by
    simp [hvalue]
  rw [parse, hdrop, hsign]
  simp only [hbare, hhead, magnitude_map_digit h, Bytes.foldl_eq_ofDigits, Bool.false_eq_true,
    if_false, List.all_nil, if_true]

/-! ### Reading what was written -/

theorem digits_lt {w n d : ℕ} (h : d ∈ digits w n) : d < 16 := by
  rw [digits, List.mem_reverse, List.mem_append] at h
  rcases h with h | h
  · exact Nat.digits_lt_base (by decide) h
  · rw [List.eq_of_mem_replicate h]
    decide

theorem ofDigits_digits (w n : ℕ) : Nat.ofDigits 16 (digits w n).reverse = n := by
  rw [digits, List.reverse_reverse, Nat.ofDigits_append_replicate_zero, Nat.ofDigits_digits]

theorem le_length_format (w n : ℕ) : w ≤ (format w n).length := by
  simp [format, digits]
  omega

/-- **A number that fits** has exactly the width asked for. -/
theorem length_format {w n : ℕ} (h : n < 16 ^ w) : (format w n).length = w := by
  have hle : (Nat.digits 16 n).length ≤ w := (Nat.digits_length_le_iff (by decide) n).mpr h
  simp [format, digits]
  omega

theorem lt_of_length_format {w n : ℕ} (h : (format w n).length = w) : n < 16 ^ w := by
  rw [← Nat.digits_length_le_iff (by decide)]
  simp [format, digits] at h
  omega

/-- **Reading back what was written.** -/
theorem parse_format {w : ℕ} (hw : 0 < w) (n : ℕ) : parse (format w n) = some ((n : ℕ) : Int) := by
  have hne : digits w n ≠ [] := by
    intro hnil
    have hle := le_length_format w n
    rw [format, hnil] at hle
    simp at hle
    omega
  rw [format, parse_map_digit hne fun d hd => digits_lt hd, ofDigits_digits]

theorem format_inj {w m n : ℕ} (hw : 0 < w) (h : format w m = format w n) : m = n := by
  have hparse := parse_format hw m
  rw [h, parse_format hw n] at hparse
  simpa using hparse.symm

/-- The first `w` digits of a number are a number of that width; all of it, if it fits. -/
theorem parse_take_format {w : ℕ} (hw : 0 < w) (n : ℕ) :
    ∃ v : ℕ, v < 16 ^ w ∧ parse ((format w n).take w) = some (v : Int) := by
  have hlen : ((digits w n).take w).length = w := by
    have hle := le_length_format w n
    rw [format, List.length_map] at hle
    rw [List.length_take]
    omega
  have hlt : ∀ d ∈ (digits w n).take w, d < 16 := fun d hd => digits_lt (List.mem_of_mem_take hd)
  refine ⟨Nat.ofDigits 16 ((digits w n).take w).reverse, ?_, ?_⟩
  · have hbound := Nat.ofDigits_lt_base_pow_length (b := 16)
      (l := ((digits w n).take w).reverse) (by decide) fun d hd => hlt d (List.mem_reverse.mp hd)
    rwa [List.length_reverse, hlen] at hbound
  · rw [format, ← List.map_take]
    refine parse_map_digit ?_ hlt
    intro hnil
    rw [hnil] at hlen
    simp at hlen
    omega

/-- A number that is not greater than what its first digits are read as fits into them. -/
theorem eq_of_parse_take_format {w n : ℕ} (hw : 0 < w) {x : Int}
    (h : parse ((format w n).take w) = some x) (hle : ∀ v : ℕ, x = v → n ≤ max v 1) :
    x = n ∧ n < 16 ^ w := by
  obtain ⟨v, hv, hparse⟩ := parse_take_format hw n
  obtain rfl : x = v := Option.some.inj (h.symm.trans hparse)
  have hlt : n < 16 ^ w :=
    (hle v rfl).trans_lt (max_lt hv (Nat.one_lt_pow hw.ne' (by decide)))
  rw [List.take_of_length_le (length_format hlt).le, parse_format hw] at hparse
  exact ⟨(Option.some.inj hparse).symm, hlt⟩

end Hex
