import A1000.Lib.Fallible
import Mathlib.Data.List.TakeDrop

/-!
# Walking a buffer

Code that takes a buffer apart through a pointer that it moves along. The pointer may be null, and
what is left of the buffer behind it is all that may be read; what is read may be stored in an array
of a given size. A read or a store that the language gives no meaning to stops the walk, and so does
an assertion that fails.

## Main definitions

* `Walk.Stop` — how a walk stops before its end
* `Walk.Stream` — a pointer into a buffer, as what is left of it
* `Walk.readUint8`, `Walk.readUint16`, `Walk.readArray` — reading, little-endian
* `Walk.readInto` — reading a number of bytes into an array
* `Walk.byteAt`, `Walk.le16At` — what lies at an offset of the buffer

## Main results

* `Walk.readUint8_drop`, `Walk.readUint16_drop`, `Walk.readArray_drop` — a read that stays inside
  gives what lies at its offset
* `Walk.readInto_eq`, `Walk.readInto_of_outside` — a counted read is good exactly when neither the
  buffer nor the array ends before it
-/

namespace Walk

open Fallible

/-- How a walk stops before its end. -/
inductive Stop
  /-- An assertion fails. -/
  | assertion
  /-- A read through a null pointer. -/
  | null
  /-- A read past the end of the buffer. -/
  | past
  /-- A store past the end of the array. -/
  | room
  deriving DecidableEq, Repr

/-- A pointer: null, or what is left of the buffer behind it. -/
abbrev Stream := Option (List UInt8)

def assert (p : Prop) [Decidable p] : Except Stop Unit := if p then .ok () else .error .assertion

/-- The next byte, and the pointer behind it. -/
def readUint8 : Stream → Except Stop (UInt8 × Stream)
  | none => .error .null
  | some [] => .error .past
  | some (b :: s) => .ok (b, some s)

/-- The next two bytes, the lower one first. -/
def readUint16 (s : Stream) : Except Stop (UInt16 × Stream) := do
  let lo ← readUint8 s
  let hi ← readUint8 lo.2
  return (lo.1.toUInt16 + hi.1.toUInt16 <<< 8, hi.2)

/-- Moving over a byte without reading it. -/
def skipUint8 (s : Stream) : Stream := s.map List.tail

/-- The next `n` bytes. -/
def readArray : ℕ → Stream → Except Stop (List UInt8 × Stream)
  | 0, s => .ok ([], s)
  | n + 1, s => do
    let b ← readUint8 s
    let r ← readArray n b.2
    return (b.1 :: r.1, r.2)

/-- The next `n` bytes, stored one by one in an array from its place `i` on. -/
def readInto : ℕ → ℕ → Stream → List UInt8 → Except Stop (List UInt8)
  | 0, _, _, array => .ok array
  | n + 1, i, s, array => do
    let b ← readUint8 s
    if i < array.length then readInto n (i + 1) b.2 (array.set i b.1) else .error .room

theorem assert_bind {α : Type} {p : Prop} [Decidable p] (hp : p) (f : Unit → Except Stop α) :
    assert p >>= f = f () := by
  rw [assert, if_pos hp, ok_bind]

theorem assert_bind_of_not {α : Type} {p : Prop} [Decidable p] (hp : ¬ p)
    (f : Unit → Except Stop α) : assert p >>= f = .error .assertion := by
  rw [assert, if_neg hp, error_bind]

/-! ### What lies at an offset -/

/-- The byte at an offset. -/
def byteAt (bs : List UInt8) (i : ℕ) : UInt8 := bs.getD i 0

/-- The two bytes from an offset on, the lower one first. -/
def le16At (bs : List UInt8) (i : ℕ) : UInt16 :=
  (byteAt bs i).toUInt16 + (byteAt bs (i + 1)).toUInt16 <<< 8

/-- The `n` bytes from an offset on. -/
def arrayAt (bs : List UInt8) (i n : ℕ) : List UInt8 := (bs.drop i).take n

/-! ### Reads that stay inside -/

section Inside

variable {bs : List UInt8} {i : ℕ}

theorem drop_eq_cons (h : i < bs.length) : bs.drop i = byteAt bs i :: bs.drop (i + 1) := by
  rw [List.drop_eq_getElem_cons h, byteAt, List.getD_eq_getElem?_getD, List.getElem?_eq_getElem h]
  rfl

theorem readUint8_drop (h : i < bs.length) :
    readUint8 (some (bs.drop i)) = .ok (byteAt bs i, some (bs.drop (i + 1))) := by
  rw [drop_eq_cons h]
  rfl

theorem readUint16_drop (h : i + 1 < bs.length) :
    readUint16 (some (bs.drop i)) = .ok (le16At bs i, some (bs.drop (i + 2))) := by
  rw [readUint16, readUint8_drop (Nat.lt_of_succ_lt h), ok_bind, readUint8_drop h, ok_bind]
  rfl

theorem skipUint8_some : skipUint8 (some bs) = some (bs.drop 1) := by
  rw [skipUint8, Option.map_some, List.drop_one]

theorem skipUint8_drop : skipUint8 (some (bs.drop i)) = some (bs.drop (i + 1)) := by
  rw [skipUint8, Option.map_some, List.tail_drop]

theorem readArray_drop {n : ℕ} (h : i + n ≤ bs.length) :
    readArray n (some (bs.drop i)) = .ok (arrayAt bs i n, some (bs.drop (i + n))) := by
  induction n generalizing i with
  | zero => simp [readArray, arrayAt]
  | succ n ih =>
    rw [readArray, readUint8_drop (by omega), ok_bind, ih (by omega), ok_bind, arrayAt, arrayAt,
      drop_eq_cons (show i < bs.length by omega), List.take_succ_cons,
      show i + 1 + n = i + (n + 1) by omega]
    rfl

theorem readUint8_some (h : 0 < bs.length) :
    readUint8 (some bs) = .ok (byteAt bs 0, some (bs.drop 1)) :=
  readUint8_drop h

theorem readUint16_some (h : 1 < bs.length) :
    readUint16 (some bs) = .ok (le16At bs 0, some (bs.drop 2)) :=
  readUint16_drop h

theorem readArray_some {n : ℕ} (h : n ≤ bs.length) :
    readArray n (some bs) = .ok (arrayAt bs 0 n, some (bs.drop n)) := by
  have hread := @readArray_drop bs 0 n (by omega)
  rwa [List.drop_zero, Nat.zero_add] at hread

end Inside

/-! ### Counted reads -/

/-- A counted read that neither the buffer nor the array ends before. -/
theorem readInto_eq {bs array : List UInt8} {n i : ℕ} (hbs : n ≤ bs.length)
    (harray : i + n ≤ array.length) :
    readInto n i (some bs) array = .ok (array.take i ++ (bs.take n ++ array.drop (i + n))) := by
  induction n generalizing i bs array with
  | zero => simp [readInto]
  | succ n ih =>
    obtain ⟨b, bs, rfl⟩ := List.exists_cons_of_length_pos (show 0 < bs.length by omega)
    have hi : i < array.length := by omega
    have hset : (array.set i b).take (i + 1) = array.take i ++ [b] := by
      have hlen : (array.take i).length = i := List.length_take_of_le (Nat.le_of_lt hi)
      rw [List.take_set, List.take_succ_eq_append_getElem hi,
        List.set_append_right _ _ (Nat.le_of_eq hlen), hlen, Nat.sub_self, List.set_cons_zero]
    have hdrop : (array.set i b).drop (i + 1 + n) = array.drop (i + (n + 1)) := by
      rw [List.drop_set_of_lt (by omega), show i + 1 + n = i + (n + 1) by omega]
    rw [readInto, readUint8, ok_bind, if_pos hi,
      ih (by simpa using hbs) (by rw [List.length_set]; omega), hset, hdrop, List.append_assoc]
    rfl

/-- A counted read that the buffer or the array ends before stops there. -/
theorem readInto_of_outside {bs array : List UInt8} {n i : ℕ}
    (h : bs.length < n ∨ array.length < i + n) (hi : i ≤ array.length) :
    ∃ stop, readInto n i (some bs) array = .error stop ∧ (stop = .past ∨ stop = .room) := by
  induction n generalizing i bs array with
  | zero => omega
  | succ n ih =>
    cases bs with
    | nil => exact ⟨.past, rfl, .inl rfl⟩
    | cons b bs =>
      by_cases hlt : i < array.length
      · rw [readInto, readUint8, ok_bind, if_pos hlt]
        exact ih (by rw [List.length_set]; simp at h; omega) (by rw [List.length_set]; omega)
      · rw [readInto, readUint8, ok_bind, if_neg hlt]
        exact ⟨.room, rfl, .inr rfl⟩

end Walk
