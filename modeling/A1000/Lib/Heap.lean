import Mathlib.Data.Option.Basic

/-!
# Objects that may be gone

Objects are found under keys, and some of them are gone or have not been made yet. Writing to an
object changes what is found under its key, and does nothing where there is no object.

## Main definitions

* `Heap.modify` — writing to an object

## Main results

* `Heap.modify_eq_none` — no object comes or goes
* `Heap.of_modify` — an object after a write, as it was before it
* `Heap.exists_modify` — what a write keeps of all objects
-/

namespace Heap

variable {κ α : Type*} [DecidableEq κ] {h : κ → Option α} {f : α → α} {j k : κ}

/-- `f` is done to the object under `k`. -/
def modify (h : κ → Option α) (k : κ) (f : α → α) : κ → Option α :=
  fun j => if j = k then (h j).map f else h j

@[simp] theorem modify_self (h : κ → Option α) (k : κ) (f : α → α) :
    modify h k f k = (h k).map f := if_pos rfl

/-- Writing to an object that is there. -/
theorem modify_eq_some {x : α} (hx : h k = some x) : modify h k f k = some (f x) := by
  rw [modify_self, hx, Option.map_some]

theorem modify_of_ne (h : κ → Option α) (f : α → α) (hj : j ≠ k) : modify h k f j = h j :=
  if_neg hj

@[simp] theorem modify_eq_none : modify h k f j = none ↔ h j = none := by
  unfold modify
  split <;> simp

/-- An object after a write, as it was before it. -/
theorem of_modify {y : α} (hy : modify h k f j = some y) :
    (j ≠ k ∧ h j = some y) ∨ (j = k ∧ ∃ x, h k = some x ∧ y = f x) := by
  by_cases hj : j = k
  · subst j
    rw [modify_self] at hy
    obtain ⟨x, hx, rfl⟩ := Option.map_eq_some_iff.mp hy
    exact .inr ⟨rfl, x, hx, rfl⟩
  · rw [modify_of_ne h f hj] at hy
    exact .inl ⟨hj, hy⟩

/-- What a write to one object keeps of another. -/
theorem exists_modify {P : α → Prop} {x : α} (hx : h j = some x) (hP : P x)
    (hf : ∀ y, P y → P (f y)) : ∃ x', modify h k f j = some x' ∧ P x' := by
  by_cases hj : j = k
  · subst j
    exact ⟨f x, modify_eq_some hx, hf x hP⟩
  · exact ⟨x, by rw [modify_of_ne h f hj, hx], hP⟩

end Heap
