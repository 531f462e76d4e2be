import Mathlib.Data.List.Sort
import Mathlib.Order.Defs.LinearOrder

/-!
# Insertion behind what is level

A list is kept in the order of a key, and something new goes behind everything whose key is not
greater. What is level then stands in the order in which it was put in.

## Main definitions

* `Stable.Before` — a smaller key, or the same key since earlier

## Main results

* `Stable.pairwise_orderedInsert` — the order is kept
-/

namespace Stable

variable {α κ : Type*} [LinearOrder κ] {key : α → κ} {since : α → ℕ} {a : α} {l : List α}

/-- `a` has a smaller key than `b`, or the same key since earlier. -/
def Before (key : α → κ) (since : α → ℕ) (a b : α) : Prop :=
  key a < key b ∨ key a = key b ∧ since a < since b

theorem Before.ne {b : α} (h : Before key since a b) : a ≠ b := by
  rintro rfl
  rcases h with h | ⟨-, h⟩
  · exact lt_irrefl _ h
  · exact Nat.lt_irrefl _ h

/-- The order is looked at on the list only. -/
theorem Before.congr {key' : α → κ} {since' : α → ℕ} (hkey : ∀ b ∈ l, key' b = key b)
    (hsince : ∀ b ∈ l, since' b = since b) (h : l.Pairwise (Before key since)) :
    l.Pairwise (Before key' since') := by
  refine h.imp_of_mem fun {b c} hb hc hbc => ?_
  rw [Before, hkey b hb, hkey c hc, hsince b hb, hsince c hc]
  exact hbc

/-- **Something new goes behind what it is level with.** -/
theorem pairwise_orderedInsert (h : l.Pairwise (Before key since))
    (hlate : ∀ b ∈ l, since b < since a) :
    (l.orderedInsert (fun a b => key a < key b) a).Pairwise (Before key since) := by
  induction l with
  | nil => exact List.pairwise_singleton _ _
  | cons b l ih =>
    obtain ⟨hb, hl⟩ := List.pairwise_cons.mp h
    rw [List.orderedInsert_cons]
    split_ifs with hlt
    · refine List.pairwise_cons.mpr ⟨fun c hc => .inl ?_, h⟩
      rcases List.mem_cons.mp hc with rfl | hc
      · exact hlt
      · rcases hb c hc with hbc | ⟨hbc, -⟩
        · exact hlt.trans hbc
        · exact hbc ▸ hlt
    · refine List.pairwise_cons.mpr
        ⟨fun c hc => ?_, ih hl fun c hc => hlate c (List.mem_cons_of_mem _ hc)⟩
      rcases (List.mem_orderedInsert _).mp hc with rfl | hc
      · rcases lt_or_eq_of_le (not_lt.mp hlt) with hba | hba
        · exact .inl hba
        · exact .inr ⟨hba, hlate b List.mem_cons_self⟩
      · exact hb c hc

end Stable
