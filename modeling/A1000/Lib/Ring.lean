import Mathlib.Data.List.Basic
import Mathlib.Data.Nat.ModEq

/-!
# Ring buffers

A ring of `n` cells holds a stream: the element with the number `i`, counted from the beginning of
the stream, is in the cell `i % n`. Where a stream begins and ends in the ring are such numbers too,
so that they only ever grow, and nothing has to be said about wrapping around.

A program does not keep these numbers. It keeps pointers, which wrap around at some multiple `b` of
`n`, and one that may also stand at `b` itself. `PointsTo` is what such a pointer tells.

## Main definitions

* `Ring.slice` — a part of the stream, as it is in the ring
* `Ring.put` — a copy into contiguous cells
* `Ring.PointsTo` — the pointer of a number

## Main results

* `Ring.slice_put_self`, `Ring.slice_put_tail` — what a copy at the end of the stream does
* `Ring.PointsTo.forward`, `Ring.PointsTo.mod` — advancing a pointer, and the cell it stands for
-/

namespace Ring

variable {α : Type*}

/-- The `len` elements from the number `start` on. -/
def slice (mem : ℕ → α) (n start len : ℕ) : List α :=
  (List.range len).map fun i => mem ((start + i) % n)

/-- The cells from `o` on are overwritten. -/
def put (mem : ℕ → α) (o : ℕ) (chunk : List α) : ℕ → α := fun j =>
  if o ≤ j then (chunk[j - o]?).getD (mem j) else mem j

variable {mem : ℕ → α} {n : ℕ}

@[simp] theorem length_slice (start len : ℕ) : (slice mem n start len).length = len := by
  simp [slice]

@[simp] theorem slice_zero (start : ℕ) : slice mem n start 0 = [] := rfl

theorem slice_add (start a b : ℕ) :
    slice mem n start (a + b) = slice mem n start a ++ slice mem n (start + a) b := by
  simp only [slice, List.range_add, List.map_append, List.map_map, Function.comp_def, Nat.add_assoc]

/-- Only the cell matters, in which a part begins. -/
theorem slice_mod (start len : ℕ) : slice mem n (start % n) len = slice mem n start len := by
  refine List.map_congr_left fun i _ => ?_
  rw [Nat.mod_add_mod]

/-- The beginning of a part. -/
theorem take_slice {start a b : ℕ} (h : a ≤ b) :
    (slice mem n start b).take a = slice mem n start a := by
  obtain ⟨c, rfl⟩ := Nat.exists_eq_add_of_le h
  rw [slice_add, List.take_left' (length_slice _ _)]

/-- Cells, one by one: `len` contiguous ones. -/
theorem slice_eq_of_le {start len : ℕ} (h : len ≤ n - start % n) :
    slice mem n start len = (List.range len).map fun i => mem (start % n + i) := by
  refine List.map_congr_left fun i hi => ?_
  rw [List.mem_range] at hi
  rw [← Nat.mod_add_mod]
  rcases Nat.eq_zero_or_pos n with rfl | hn
  · omega
  · have hlt := Nat.mod_lt start hn
    rw [Nat.mod_eq_of_lt (show start % n + i < n by omega)]

/-- **The copy is there**, when it does not run over the end of the ring. -/
theorem slice_put_self (mem : ℕ → α) {start : ℕ} {chunk : List α}
    (h : chunk.length ≤ n - start % n) :
    slice (put mem (start % n) chunk) n start chunk.length = chunk := by
  rw [slice_eq_of_le h]
  refine List.ext_getElem (by simp) fun i hi hi' => ?_
  simp [put, hi']

/-- Different numbers, less than a turn apart, are in different cells. -/
theorem mod_ne_mod {i j : ℕ} (h : i < j) (hlt : j < i + n) : i % n ≠ j % n := by
  intro heq
  have hdvd : n ∣ j - i := (Nat.modEq_iff_dvd' h.le).mp heq
  exact absurd (Nat.le_of_dvd (by omega) hdvd) (by omega)

/-- **A copy at the end of the stream** leaves the stream as it is, when there is room for it. -/
theorem slice_put_tail (mem : ℕ → α) {start len : ℕ} {chunk : List α}
    (hroom : len + chunk.length ≤ n) :
    slice (put mem ((start + len) % n) chunk) n start len = slice mem n start len := by
  refine List.map_congr_left fun i hi => ?_
  rw [List.mem_range] at hi
  unfold put
  split
  · rename_i hle
    by_cases hin : (start + i) % n - (start + len) % n < chunk.length
    · -- the cell is one of those copied to: it would be that of a number behind the end
      exfalso
      have hn : 0 < n := by omega
      have hlt := Nat.mod_lt (start + i) hn
      have hne := mod_ne_mod (n := n) (i := start + i)
        (j := start + len + ((start + i) % n - (start + len) % n)) (by omega) (by omega)
      refine hne ?_
      rw [← Nat.mod_add_mod (start + len)]
      rw [show (start + len) % n + ((start + i) % n - (start + len) % n) = (start + i) % n by omega,
        Nat.mod_mod]
    · rw [List.getElem?_eq_none (by omega)]
      rfl
  · rfl

/-! ### Pointers that wrap around -/

/-- The pointer `p` stands for the number `i`: it wraps around at `b`, or right behind it. -/
def PointsTo (b p i : ℕ) : Prop := p = i % b ∨ p = b ∧ i % b = 0

variable {b p i : ℕ}

theorem PointsTo.le (h : PointsTo b p i) (hb : 0 < b) : p ≤ b := by
  rcases h with rfl | ⟨rfl, -⟩
  · exact (Nat.mod_lt i hb).le
  · exact le_refl _

/-- The cell a pointer stands for. -/
theorem PointsTo.mod (h : PointsTo b p i) (hdvd : n ∣ b) : p % n = i % n := by
  rcases h with rfl | ⟨rfl, hi⟩
  · exact Nat.mod_mod_of_dvd i hdvd
  · rw [Nat.mod_eq_zero_of_dvd hdvd, eq_comm]
    exact Nat.mod_eq_zero_of_dvd (hdvd.trans (Nat.dvd_of_mod_eq_zero hi))

/-- **Advancing a pointer** that wraps around behind `b`. -/
theorem PointsTo.forward (h : PointsTo b p i) {k : ℕ} (hk : k < b) :
    PointsTo b (if b < p + k then p + k - b else p + k) (i + k) := by
  have hb : 0 < b := by omega
  rcases h with rfl | ⟨rfl, hi⟩
  · have hlt := Nat.mod_lt i hb
    rw [PointsTo, ← Nat.mod_add_mod]
    split
    · left
      rw [Nat.mod_eq_sub_mod (a := i % b + k) (by omega),
        Nat.mod_eq_of_lt (a := i % b + k - b) (by omega)]
    · rcases (show i % b + k < b ∨ i % b + k = b by omega) with hlt' | heq
      · left
        rw [Nat.mod_eq_of_lt hlt']
      · right
        rw [heq, Nat.mod_self]
        exact ⟨rfl, rfl⟩
  · rw [PointsTo, ← Nat.mod_add_mod, hi, Nat.zero_add, Nat.mod_eq_of_lt hk]
    split
    · left
      omega
    · right
      omega

end Ring
