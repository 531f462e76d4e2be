import Mathlib.Logic.Function.Basic

/-!
# Memo tables

A memo table keeps, for each key, what was generated for it when it was first used. What is
generated depends on the key and on an environment; the table only knows the key. So a use returns
what the environment of the *first* use of its key gave, whatever the environment is by then.

## Main definitions

* `Memo.use` — look a key up, and generate what is missing
* `Memo.firstUse` — the environment of the first use of a key

## Main results

* `Memo.Remembers.use` — a use keeps the table in step with what has been used
* `Memo.Remembers.value` — what a use returns
-/

namespace Memo

variable {κ ε ν : Type*} [DecidableEq κ] {gen : κ → ε → ν}

/-- A table of what has been generated. -/
abbrev Table (κ ν : Type*) := κ → Option ν

/-- Look the key `k` up; generate for it in the environment `e` when it is missing. -/
def use (gen : κ → ε → ν) (t : Table κ ν) (k : κ) (e : ε) : Table κ ν × ν :=
  match t k with
  | some v => (t, v)
  | none => (Function.update t k (some (gen k e)), gen k e)

/-- The environment in which a key was first used. -/
def firstUse : List (κ × ε) → κ → Option ε
  | [], _ => none
  | u :: uses, k => if u.1 = k then some u.2 else firstUse uses k

/-- The table holds what the first use of each key gave. -/
def Remembers (gen : κ → ε → ν) (uses : List (κ × ε)) (t : Table κ ν) : Prop :=
  ∀ k, t k = (firstUse uses k).map (gen k)

theorem use_of_some {t : Table κ ν} {k : κ} {v : ν} (h : t k = some v) (e : ε) :
    use gen t k e = (t, v) := by
  rw [use, h]

theorem use_of_none {t : Table κ ν} {k : κ} (h : t k = none) (e : ε) :
    use gen t k e = (Function.update t k (some (gen k e)), gen k e) := by
  rw [use, h]

theorem firstUse_append (uses uses' : List (κ × ε)) (k : κ) :
    firstUse (uses ++ uses') k = (firstUse uses k).or (firstUse uses' k) := by
  induction uses with
  | nil => rfl
  | cons u uses ih =>
    rw [List.cons_append, firstUse, firstUse]
    split
    · rfl
    · exact ih

/-- A key that has not been used. -/
theorem firstUse_eq_none {uses : List (κ × ε)} {k : κ} (h : ∀ u ∈ uses, u.1 ≠ k) :
    firstUse uses k = none := by
  induction uses with
  | nil => rfl
  | cons u uses ih =>
    rw [firstUse, if_neg (h u List.mem_cons_self)]
    exact ih fun v hv => h v (List.mem_cons_of_mem u hv)

/-- Nothing has been used. -/
theorem remembers_nil : Remembers gen [] fun _ => none := fun _ => rfl

/-- What a use returns. -/
theorem Remembers.value {uses : List (κ × ε)} {t : Table κ ν} (h : Remembers gen uses t) (k : κ)
    (e : ε) : (use gen t k e).2 = gen k ((firstUse uses k).getD e) := by
  have hk := h k
  cases hfirst : firstUse uses k with
  | none => rw [hfirst] at hk; rw [use_of_none hk]; rfl
  | some e' => rw [hfirst] at hk; rw [use_of_some hk]; rfl

/-- **A use keeps the table in step.** -/
theorem Remembers.use {uses : List (κ × ε)} {t : Table κ ν} (h : Remembers gen uses t) (k : κ)
    (e : ε) : Remembers gen (uses ++ [(k, e)]) (use gen t k e).1 := by
  intro j
  have hk := h k
  rw [firstUse_append]
  by_cases hj : k = j
  · subst hj
    cases hfirst : firstUse uses k with
    | none =>
      rw [hfirst] at hk
      simp only [use_of_none hk, Function.update_self, firstUse, if_pos, Option.none_or,
        Option.map_some]
    | some e' =>
      rw [hfirst] at hk
      simp only [use_of_some hk, hk, Option.some_or]
  · rw [firstUse, if_neg hj, firstUse, Option.or_none, ← h j]
    cases htable : t k with
    | none => simp only [use_of_none htable, Function.update_of_ne (Ne.symm hj)]
    | some v => simp only [use_of_some htable]

/-- So do several. -/
theorem Remembers.foldl {uses : List (κ × ε)} {t : Table κ ν} (h : Remembers gen uses t)
    (more : List (κ × ε)) :
    Remembers gen (uses ++ more) (more.foldl (fun t u => (Memo.use gen t u.1 u.2).1) t) := by
  induction more generalizing uses t with
  | nil => simpa using h
  | cons u more ih => simpa using ih (h.use u.1 u.2)

end Memo
