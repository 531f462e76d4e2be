import Mathlib.Data.Nat.Digits.Lemmas

/-!
# Byte strings

Slices, slice assignments, padding to a multiple of a block size, and little-endian words. A slice
past the end of the string is cut off there, as in most scripting languages.

## Main definitions

* `Bytes.slice`, `Bytes.pySlice` — slices, with natural bounds and with bounds that count from the
  end when they are negative
* `Bytes.setSlice` — replacing a slice by bytes of any number
* `Bytes.alignUp`, `Bytes.padded` — padding with zeros
* `Bytes.u32`, `Bytes.packU32` — little-endian words
* `Bytes.word` — the words of a string
* `Bytes.isSpace`, `Bytes.sign` — the blanks and the sign in front of a number in a text
* `Bytes.Field` — what stands between separators

## Main results

* `Bytes.getElem?_setSlice`, `Bytes.slice_congr` — where the bytes of a slice are
* `Bytes.u32_packU32`
* `Bytes.mem_splitOn_iff` — splitting finds the fields
-/

abbrev Bytes := List UInt8

namespace Bytes

/-! ### Slices -/

/-- The bytes from `a` up to, not including, `b`. -/
def slice (d : Bytes) (a b : ℕ) : Bytes := (d.take b).drop a

/-- Where a bound lies in a string of length `n`; negative bounds count from its end. -/
def bound (n : ℕ) (i : Int) : ℕ := if i < 0 then (n + i).toNat else i.toNat

/-- A slice whose bounds may be negative. -/
def pySlice (d : Bytes) (a b : Int) : Bytes := slice d (bound d.length a) (bound d.length b)

/-- The bytes from `a` up to `b` replaced by `v`. -/
def setSlice (d : Bytes) (a b : ℕ) (v : Bytes) : Bytes := d.take a ++ v ++ d.drop b

@[simp] theorem pySlice_natCast (d : Bytes) (a b : ℕ) : pySlice d a b = slice d a b := by
  simp [pySlice, bound, Int.not_lt.mpr (Int.natCast_nonneg _)]

@[simp] theorem length_slice (d : Bytes) (a b : ℕ) : (slice d a b).length = min b d.length - a := by
  simp [slice]

theorem getElem?_slice (d : Bytes) (a b i : ℕ) :
    (slice d a b)[i]? = if a + i < b then d[a + i]? else none := by
  rw [slice, List.getElem?_drop, List.getElem?_take]

/-- Strings that agree between the bounds have the same slice. -/
theorem slice_congr {d d' : Bytes} {a b : ℕ} (h : ∀ i, a ≤ i → i < b → d[i]? = d'[i]?) :
    slice d a b = slice d' a b := by
  refine List.ext_getElem? fun i => ?_
  rw [getElem?_slice, getElem?_slice]
  split_ifs with hi
  · exact h _ (Nat.le_add_right a i) hi
  · rfl

theorem slice_eq_take_drop (d : Bytes) (a n : ℕ) : slice d a (a + n) = (d.drop a).take n := by
  rw [slice, List.drop_take, Nat.add_sub_cancel_left]

/-- A slice that starts in the second of two strings. -/
theorem slice_append_add {x : Bytes} {a : ℕ} (hx : x.length = a) (y : Bytes) (i n : ℕ) :
    slice (x ++ y) (a + i) (a + i + n) = (y.drop i).take n := by
  rw [slice_eq_take_drop, ← List.drop_drop, List.drop_left' hx]

theorem slice_append_left {x : Bytes} {b : ℕ} (h : b ≤ x.length) (y : Bytes) (a : ℕ) :
    slice (x ++ y) a b = slice x a b := by
  rw [slice, slice, List.take_append_of_le_length h]

theorem slice_drop (d : Bytes) (n a b : ℕ) : slice (d.drop n) a b = slice d (n + a) (n + b) := by
  rw [slice, slice, List.take_drop, List.drop_drop]

theorem slice_slice (d : Bytes) {n b : ℕ} (h : b ≤ n) (a : ℕ) :
    slice (slice d 0 n) a b = slice d a b := by
  rw [slice, slice, slice, List.drop_zero, List.take_take, Nat.min_eq_left h]

/-- A slice with both bounds counted from `n` on. -/
theorem pySlice_add (d : Bytes) (n a b : ℕ) :
    pySlice d ((n : Int) + a) ((n : Int) + b) = slice (d.drop n) a b := by
  rw [slice_drop, ← pySlice_natCast]
  push_cast
  rfl

theorem pySlice_zero_add (d : Bytes) (n b : ℕ) :
    pySlice d n ((n : Int) + b) = slice (d.drop n) 0 b := by
  simpa using pySlice_add d n 0 b

/-- Everything from `n` on. -/
theorem pySlice_length (d : Bytes) (n : ℕ) : pySlice d n d.length = d.drop n := by
  rw [pySlice_natCast, slice, List.take_length]

/-- A slice is not longer than its bounds are apart. -/
theorem length_pySlice_le (d : Bytes) (a : Int) (n : ℕ) : (pySlice d a (a + n)).length ≤ n := by
  rw [pySlice, length_slice, bound, bound]
  split_ifs <;> omega

theorem slice_self (d : Bytes) {n : ℕ} (h : d.length ≤ n) : slice d 0 n = d := by
  rw [slice, List.take_of_length_le h, List.drop_zero]

@[simp] theorem length_setSlice (d : Bytes) {a b : ℕ} {v : Bytes} (hb : b ≤ d.length)
    (hab : a ≤ b) (hv : v.length = b - a) : (setSlice d a b v).length = d.length := by
  simp [setSlice, hv]
  omega

/-- Where the bytes are after as many have been put in as were taken out. -/
theorem getElem?_setSlice {d : Bytes} {a b : ℕ} {v : Bytes} (hb : b ≤ d.length) (hab : a ≤ b)
    (hv : v.length = b - a) (i : ℕ) :
    (setSlice d a b v)[i]? = if i < a then d[i]? else if i < b then v[i - a]? else d[i]? := by
  have hlen : (d.take a).length = a := by simp; omega
  rw [setSlice, List.append_assoc]
  split_ifs with hia hib
  · rw [List.getElem?_append_left (by omega), List.getElem?_take_of_lt hia]
  · rw [List.getElem?_append_right (by omega), List.getElem?_append_left (by omega), hlen]
  · rw [List.getElem?_append_right (by omega), List.getElem?_append_right (by omega),
      List.getElem?_drop]
    congr 1
    omega

/-- The slice that has been put in. -/
theorem slice_setSlice {d : Bytes} {a b : ℕ} {v : Bytes} (hb : b ≤ d.length) (hab : a ≤ b)
    (hv : v.length = b - a) : slice (setSlice d a b v) a b = v := by
  refine List.ext_getElem? fun i => ?_
  rw [getElem?_slice, getElem?_setSlice hb hab hv]
  split_ifs with h₁ h₂
  · omega
  · rw [Nat.add_sub_cancel_left]
  · rw [List.getElem?_eq_none (by omega)]

/-- The slices in front of what has been put in. -/
theorem slice_setSlice_of_le {d : Bytes} {a c : ℕ} (hc : c ≤ a) (ha : a ≤ d.length) (b e : ℕ)
    (v : Bytes) : slice (setSlice d a b v) e c = slice d e c := by
  have hlen : (d.take a).length = a := by rw [List.length_take]; omega
  rw [setSlice, List.append_assoc, slice_append_left (by omega), slice, slice, List.take_take,
    Nat.min_eq_left hc]

/-- The beginning of what has been put in. -/
theorem slice_setSlice_take {d : Bytes} {a n : ℕ} {v : Bytes} (ha : a ≤ d.length)
    (hn : n ≤ v.length) (b : ℕ) : slice (setSlice d a b v) a (a + n) = v.take n := by
  have hlen : (d.take a).length = a := by rw [List.length_take]; omega
  have hslice := slice_append_add hlen (v ++ d.drop b) 0 n
  rwa [Nat.add_zero, List.drop_zero, List.take_append_of_le_length hn,
    ← List.append_assoc] at hslice

/-! ### Padding -/

/-- `n` zero bytes. -/
def zeros (n : ℕ) : Bytes := List.replicate n 0

/-- The next multiple of `k`. -/
def alignUp (n k : ℕ) : ℕ := (n + k - 1) / k * k

/-- A string padded with zeros to a multiple of `k`. -/
def padded (d : Bytes) (k : ℕ) : Bytes := d ++ zeros (alignUp d.length k - d.length)

@[simp] theorem length_zeros (n : ℕ) : (zeros n).length = n := List.length_replicate

theorem zeros_add (m n : ℕ) : zeros (m + n) = zeros m ++ zeros n := List.replicate_add m n 0

theorem take_zeros (m n : ℕ) : (zeros n).take m = zeros (min m n) := List.take_replicate

theorem drop_zeros (m n : ℕ) : (zeros n).drop m = zeros (n - m) := List.drop_replicate

@[simp] theorem alignUp_zero {k : ℕ} (hk : 0 < k) : alignUp 0 k = 0 := by
  rw [alignUp, Nat.zero_add, Nat.div_eq_of_lt (by omega), Nat.zero_mul]

theorem le_alignUp (n : ℕ) {k : ℕ} (hk : 0 < k) : n ≤ alignUp n k := by
  have hlt : n + k - 1 < (n + k - 1) / k * k + k := Nat.lt_div_mul_add hk
  rw [alignUp]
  omega

theorem alignUp_mod (n k : ℕ) : alignUp n k % k = 0 := Nat.mul_mod_left _ k

@[simp] theorem length_padded (d : Bytes) {k : ℕ} (hk : 0 < k) :
    (padded d k).length = alignUp d.length k := by
  have hle := le_alignUp d.length hk
  simp [padded]
  omega

/-- What was padded is at the front. -/
theorem take_padded_append (d : Bytes) (k : ℕ) (x : Bytes) :
    (padded d k ++ x).take d.length = d := by
  rw [padded, List.append_assoc, List.take_left' rfl]

/-- Nothing but zeros. -/
def AllZero (d : Bytes) : Prop := ∀ x ∈ d, x = 0

instance : DecidablePred AllZero := fun _ => inferInstanceAs (Decidable (∀ _ ∈ _, _))

theorem allZero_iff {d : Bytes} : AllZero d ↔ d = zeros d.length := by
  rw [zeros, List.eq_replicate_iff]
  simp [AllZero]

theorem AllZero.append {x y : Bytes} (hx : AllZero x) (hy : AllZero y) : AllZero (x ++ y) := by
  intro b hb
  exact (List.mem_append.mp hb).elim (hx b) (hy b)

theorem allZero_zeros (n : ℕ) : AllZero (zeros n) := fun _ hb => List.eq_of_mem_replicate hb

/-- A string that is found again further on in itself, followed by zeros, is nothing but zeros. -/
theorem allZero_of_shift {x : Bytes} {m p : ℕ} (hp : 0 < p)
    (h : ((x ++ zeros m).drop p).take x.length = x) : AllZero x := by
  -- from the end of the string to its beginning
  have hget : ∀ n i, i < x.length → x.length - i ≤ n → x[i]? = some 0 := by
    intro n
    induction n with
    | zero =>
      intro i hi hn
      omega
    | succ n ih =>
      intro i hi hn
      have hshift : x[i]? = (x ++ zeros m)[p + i]? := by
        conv_lhs => rw [← h]
        rw [List.getElem?_take_of_lt hi, List.getElem?_drop]
      rw [hshift]
      rcases Nat.lt_or_ge (p + i) x.length with hlt | hge
      · rw [List.getElem?_append_left hlt]
        exact ih (p + i) hlt (by omega)
      · rw [List.getElem?_append_right hge] at hshift ⊢
        obtain ⟨b, hb⟩ : ∃ b, x[i]? = some b := ⟨_, List.getElem?_eq_getElem hi⟩
        rw [hb] at hshift
        have hmem := List.mem_of_getElem? hshift.symm
        rw [← hshift, allZero_zeros m b hmem]
  intro b hb
  obtain ⟨i, hi⟩ := List.mem_iff_getElem?.mp hb
  have hlt : i < x.length := (List.getElem?_eq_some_iff.mp hi).1
  rw [hget x.length i hlt (by omega)] at hi
  exact (Option.some.inj hi).symm

/-! ### Digits -/

/-- The value of digits with the highest first. -/
theorem foldl_eq_ofDigits (b : ℕ) (ds : List ℕ) :
    ds.foldl (fun n d => b * n + d) 0 = Nat.ofDigits b ds.reverse := by
  rw [Nat.ofDigits_eq_foldr, List.foldr_reverse]
  congr 1
  funext n d
  simp [Nat.add_comm]

/-! ### Little-endian words -/

/-- The number whose little-endian bytes these are. -/
def u32 (b : Bytes) : ℕ := Nat.ofDigits 256 (b.map UInt8.toNat)

/-- The four little-endian bytes of a number. -/
def packU32 (n : ℕ) : Bytes :=
  [n.toUInt8, (n / 256).toUInt8, (n / 65536).toUInt8, (n / 16777216).toUInt8]

@[simp] theorem length_packU32 (n : ℕ) : (packU32 n).length = 4 := rfl

theorem u32_packU32 {n : ℕ} (h : n < 2 ^ 32) : u32 (packU32 n) = n := by
  simp only [u32, packU32, List.map_cons, List.map_nil, Nat.ofDigits_cons, Nat.ofDigits_nil,
    Nat.toUInt8_eq, UInt8.toNat_ofNat']
  omega

/-! ### Words of a string -/

/-- The `i`-th little-endian word of a string, with its sign. -/
def word (d : Bytes) (i : ℕ) : Int32 := Int32.ofNat (u32 (slice d (4 * i) (4 * i + 4)))

theorem word_take {n i : ℕ} (h : 4 * i + 4 ≤ n) (d : Bytes) : word (d.take n) i = word d i := by
  rw [word, word, slice, slice, List.take_take, Nat.min_eq_left h]

/-- The words of what has been copied to the front. -/
theorem word_setSlice_zero {n i : ℕ} (h : 4 * i + 4 ≤ n) {v : Bytes} (hv : v.length = n)
    (d : Bytes) : word (setSlice d 0 n v) i = word v i := by
  rw [word, word, setSlice, List.take_zero, List.nil_append, slice_append_left (hv.symm ▸ h)]

/-- The word that has been put in. -/
theorem word_setSlice_self {d v : Bytes} {i : ℕ} (hd : 4 * i + 4 ≤ d.length) (hv : v.length = 4) :
    word (setSlice d (4 * i) (4 * i + 4) v) i = Int32.ofNat (u32 v) := by
  rw [word, slice_setSlice hd (Nat.le_add_right _ 4) (by omega)]

/-- The other words are left alone. -/
theorem word_setSlice_ne {d v : Bytes} {i j : ℕ} (hd : 4 * i + 4 ≤ d.length) (hv : v.length = 4)
    (hij : j ≠ i) : word (setSlice d (4 * i) (4 * i + 4) v) j = word d j := by
  have hslice : slice (setSlice d (4 * i) (4 * i + 4) v) (4 * j) (4 * j + 4) =
      slice d (4 * j) (4 * j + 4) := by
    refine slice_congr fun k hlow hhigh => ?_
    rw [getElem?_setSlice hd (Nat.le_add_right _ 4) (by omega)]
    split_ifs <;> first | rfl | omega
  rw [word, hslice, word]

theorem word_zeros (n i : ℕ) : word (zeros n) i = 0 := by
  have hzero : ∀ k, u32 (zeros k) = 0 := by
    intro k
    induction k with
    | zero => rfl
    | succ k ih =>
      rw [u32, zeros] at ih ⊢
      rw [List.replicate_succ, List.map_cons, Nat.ofDigits_cons, ih]
      rfl
  rw [word, slice, take_zeros, drop_zeros, hzero]
  rfl

/-! ### Text -/

/-- What C and Python take for a blank. -/
def isSpace (c : UInt8) : Bool := c = 32 ∨ 9 ≤ c ∧ c ≤ 13

/-- A sign, and what follows it. -/
def sign : Bytes → Bool × Bytes
  | 43 :: rest => (false, rest)
  | 45 :: rest => (true, rest)
  | s => (false, s)

theorem sign_of_notMem {s : Bytes} (h : 45 ∉ s) : (sign s).1 = false := by
  fun_cases sign s with
  | case1 rest => rfl
  | case2 rest => exact absurd List.mem_cons_self h
  | case3 => rfl

theorem sign_append {x : Bytes} (hx : x ≠ []) (y : Bytes) :
    sign (x ++ y) = ((sign x).1, (sign x).2 ++ y) := by
  obtain ⟨c, x, rfl⟩ := List.exists_cons_of_ne_nil hx
  by_cases hplus : c = 43
  · subst hplus
    rfl
  by_cases hminus : c = 45
  · subst hminus
    rfl
  · simp [sign, hplus, hminus]

/-- A sign is no blank. -/
theorem exists_sign (s : Bytes) : ∃ x, s = x ++ (sign s).2 ∧ ∀ c ∈ x, isSpace c = false := by
  fun_cases sign s with
  | case1 rest => exact ⟨[43], rfl, List.forall_mem_singleton.mpr rfl⟩
  | case2 rest => exact ⟨[45], rfl, List.forall_mem_singleton.mpr rfl⟩
  | case3 => exact ⟨[], rfl, by simp⟩

/-- `w` stands in `s` between two separators, the ends of `s` being separators too. -/
def Field (sep : UInt8) (s w : Bytes) : Prop :=
  sep ∉ w ∧ ∃ x y, sep :: (s ++ [sep]) = x ++ sep :: (w ++ sep :: y)

/-- A string is its fields, each after a separator. -/
theorem flatMap_splitOn (sep : UInt8) (s : Bytes) :
    (s.splitOn sep).flatMap (sep :: ·) = sep :: s := by
  induction s with
  | nil => rfl
  | cons c s ih =>
    rw [List.splitOn_cons_eq_if_modifyHead]
    split
    · rename_i hc
      rw [List.flatMap_cons, ih, beq_iff_eq.mp hc]
      rfl
    · obtain ⟨w, ws, hw⟩ := List.exists_cons_of_ne_nil (List.splitOn_ne_nil sep s)
      rw [hw, List.flatMap_cons, List.cons_append, List.cons.injEq] at ih
      rw [hw, List.modifyHead_cons, List.flatMap_cons, List.cons_append, List.cons_append, ih.2]

theorem notMem_of_mem_splitOn {sep : UInt8} {s w : Bytes} (h : w ∈ s.splitOn sep) : sep ∉ w := by
  induction s generalizing w with
  | nil =>
    obtain rfl : w = [] := by simpa using h
    exact List.not_mem_nil
  | cons c s ih =>
    rw [List.splitOn_cons_eq_if_modifyHead] at h
    split at h
    · rcases List.mem_cons.mp h with rfl | h
      · exact List.not_mem_nil
      · exact ih h
    · rename_i hc
      obtain ⟨v, vs, hv⟩ := List.exists_cons_of_ne_nil (List.splitOn_ne_nil sep s)
      rw [hv, List.modifyHead_cons] at h
      rw [hv] at ih
      rcases List.mem_cons.mp h with rfl | h
      · have hne : ¬ sep = c := fun heq => hc (beq_iff_eq.mpr heq.symm)
        simpa [hne] using ih List.mem_cons_self
      · exact ih (List.mem_cons_of_mem v h)

/-- **Splitting** a string finds its fields. -/
theorem mem_splitOn_iff {sep : UInt8} {s w : Bytes} : w ∈ s.splitOn sep ↔ Field sep s w := by
  constructor
  · intro h
    refine ⟨notMem_of_mem_splitOn h, ?_⟩
    obtain ⟨vs, ws, hsplit⟩ := List.append_of_mem h
    refine ⟨vs.flatMap (sep :: ·), (ws.flatMap (sep :: ·) ++ [sep]).tail, ?_⟩
    have htail : ws.flatMap (sep :: ·) ++ [sep] =
        sep :: (ws.flatMap (sep :: ·) ++ [sep]).tail := by
      cases ws <;> rfl
    rw [← List.cons_append, ← flatMap_splitOn, hsplit, List.flatMap_append, List.flatMap_cons,
      List.append_assoc, List.append_assoc, htail]
    rfl
  · rintro ⟨hw, x, y, h⟩
    have hsplit : (sep :: (s ++ [sep])).splitOn sep = [] :: s.splitOn sep ++ [[]] := by
      rw [← List.nil_append (sep :: (s ++ [sep])), List.splitOn_append_cons_self,
        List.splitOn_append_cons_self]
      rfl
    obtain ⟨v, vs, hv⟩ := List.exists_cons_of_ne_nil (List.splitOn_ne_nil sep x)
    obtain ⟨ws, z, hz⟩ : ∃ ws z, y.splitOn sep = ws ++ [z] :=
      ⟨_, _, (List.dropLast_append_getLast (List.splitOn_ne_nil sep y)).symm⟩
    rw [h, List.splitOn_append_cons_self, List.splitOn_append_cons_self,
      List.splitOn_eq_singleton hw, hv, hz] at hsplit
    simp only [List.cons_append, List.nil_append, List.cons.injEq] at hsplit
    have hfields : vs ++ w :: ws = s.splitOn sep := by
      refine (List.append_inj' (show (vs ++ w :: ws) ++ [z] = s.splitOn sep ++ [[]] from ?_) rfl).1
      rw [List.append_assoc]
      exact hsplit.2
    rw [← hfields]
    simp

end Bytes
