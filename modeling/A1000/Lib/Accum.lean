import Mathlib.Data.List.Perm.Basic
import Mathlib.Logic.Function.Basic

/-!
# Tables that only accumulate

A table of type `κ → Option β` is updated by joining a value to what one of its keys holds, through
an operation that is commutative, associative and idempotent. Then neither the order of the updates
matters nor how often each is made.

## Main definitions

* `Accum.join` — one update
* `Accum.joins` — one update after another

## Main results

* `Accum.joins_perm` — the order does not matter
* `Accum.joins_joins` — making the same updates again changes nothing
* `Accum.joins_of_forall_ne` — a key without updates keeps its value
* `Accum.holds_joins_iff` — what holds of a join if and only if it holds of one of the parts
-/

namespace Accum

variable {κ β : Type*} [DecidableEq κ] {op : β → β → β}

/-- Join `u.2` to what `t` holds for the key `u.1`. -/
def join (op : β → β → β) (t : κ → Option β) (u : κ × β) : κ → Option β :=
  Function.update t u.1 (some ((t u.1).elim u.2 (op · u.2)))

/-- Join all of `us`, one after the other. -/
def joins (op : β → β → β) (t : κ → Option β) (us : List (κ × β)) : κ → Option β :=
  us.foldl (join op) t

@[simp]
theorem join_self (t : κ → Option β) (u : κ × β) :
    join op t u u.1 = some ((t u.1).elim u.2 (op · u.2)) :=
  Function.update_self ..

theorem join_of_ne (t : κ → Option β) {u : κ × β} {k : κ} (h : k ≠ u.1) : join op t u k = t k :=
  Function.update_of_ne h ..

@[simp]
theorem joins_nil (t : κ → Option β) : joins op t [] = t := rfl

@[simp]
theorem joins_cons (t : κ → Option β) (u : κ × β) (us : List (κ × β)) :
    joins op t (u :: us) = joins op (join op t u) us := rfl

theorem joins_append (t : κ → Option β) (us vs : List (κ × β)) :
    joins op t (us ++ vs) = joins op (joins op t us) vs :=
  List.foldl_append

/-- An update that the table has absorbed already. -/
theorem join_eq_self {t : κ → Option β} {u : κ × β} {b : β} (h : t u.1 = some b)
    (hb : op b u.2 = b) : join op t u = t := by
  funext k
  by_cases hk : k = u.1
  · subst hk
    rw [join_self, h, Option.elim_some, hb]
  · exact join_of_ne t hk

/-- A key without updates keeps its value. -/
theorem joins_of_forall_ne {t : κ → Option β} {us : List (κ × β)} {k : κ}
    (h : ∀ u ∈ us, u.1 ≠ k) : joins op t us k = t k := by
  induction us generalizing t with
  | nil => rfl
  | cons u us ih =>
    rw [joins_cons, ih fun v hv => h v (List.mem_cons_of_mem u hv)]
    exact join_of_ne t (h u List.mem_cons_self).symm

/-! ### Order and repetition -/

section Laws

variable [Std.Commutative op] [Std.Associative op]

theorem join_right_comm (t : κ → Option β) (u v : κ × β) :
    join op (join op t u) v = join op (join op t v) u := by
  obtain ⟨k, a⟩ := u
  obtain ⟨l, b⟩ := v
  by_cases hkl : k = l
  · subst hkl
    simp only [join, Function.update_self, Function.update_idem, Option.elim_some]
    cases t k with
    | none => simp only [Option.elim_none, Std.Commutative.comm a b]
    | some c => simp only [Option.elim_some, RightCommutative.right_comm]
  · simp only [join, Function.update_of_ne hkl, Function.update_of_ne (Ne.symm hkl)]
    exact Function.update_comm hkl ..

instance rightCommutative_join :
    RightCommutative (join op : (κ → Option β) → κ × β → κ → Option β) :=
  ⟨join_right_comm⟩

/-- **The order of the updates does not matter.** -/
theorem joins_perm {us vs : List (κ × β)} (h : us.Perm vs) (t : κ → Option β) :
    joins op t us = joins op t vs :=
  h.foldl_eq t

variable [Std.IdempotentOp op]

omit [Std.Commutative op] in
theorem join_join (t : κ → Option β) (u : κ × β) : join op (join op t u) u = join op t u := by
  refine join_eq_self (join_self t u) ?_
  cases t u.1 with
  | none => exact Std.IdempotentOp.idempotent u.2
  | some c =>
    have hassoc : op (op c u.2) u.2 = op c (op u.2 u.2) := Std.Associative.assoc c u.2 u.2
    have hidem : op u.2 u.2 = u.2 := Std.IdempotentOp.idempotent u.2
    rw [Option.elim_some, hassoc, hidem]

/-- An update that has been made can be made again. -/
theorem join_joins {us : List (κ × β)} {u : κ × β} (h : u ∈ us) (t : κ → Option β) :
    join op (joins op t us) u = joins op t us := by
  obtain ⟨as, bs, rfl⟩ := List.append_of_mem h
  have hlast : joins op t (as ++ u :: bs) = join op (joins op t (as ++ bs)) u := by
    rw [joins_perm (List.perm_middle.trans (List.perm_append_singleton u (as ++ bs)).symm),
      joins_append]
    rfl
  rw [hlast, join_join]

/-- **Making the same updates again changes nothing.** -/
theorem joins_joins (t : κ → Option β) (us : List (κ × β)) :
    joins op (joins op t us) us = joins op t us := by
  have hsub : ∀ vs, (∀ v ∈ vs, v ∈ us) → joins op (joins op t us) vs = joins op t us := by
    intro vs
    induction vs with
    | nil => exact fun _ => rfl
    | cons v vs ih =>
      intro hvs
      rw [joins_cons, join_joins (hvs v List.mem_cons_self)]
      exact ih fun w hw => hvs w (List.mem_cons_of_mem v hw)
  exact hsub us fun _ h => h

end Laws

/-! ### What a table holds -/

/-- What holds of a join if and only if it holds of a part of it has come in with a part. -/
theorem holds_joins_iff {P : β → Prop} (hop : ∀ a b, P (op a b) ↔ P a ∨ P b) {t : κ → Option β}
    {us : List (κ × β)} {k : κ} :
    (∃ b, joins op t us k = some b ∧ P b) ↔
      (∃ b, t k = some b ∧ P b) ∨ ∃ u ∈ us, u.1 = k ∧ P u.2 := by
  induction us generalizing t with
  | nil => simp
  | cons u us ih =>
    rw [joins_cons, ih, List.exists_mem_cons_iff, ← or_assoc]
    refine or_congr_left ?_
    by_cases hk : k = u.1
    · subst hk
      cases ht : t u.1 with
      | none => simp [join_self, ht]
      | some c => simp [join_self, ht, hop]
    · simp [join_of_ne t hk, Ne.symm hk]

end Accum
