import Mathlib.Data.List.Induction
import Mathlib.Data.List.Nodup

/-!
# Handles that are given out again

A program holds resources under numbers, such as file descriptors: a number that has been closed
may be opened again, for something else. `held` follows the numbers through a list of events, and
`InOrder` says that none is closed unless it is held at that time, and none opened while it is.

## Main definitions

* `Handles.held` — what has been opened and not closed since
* `Handles.InOrder` — every event is possible when it happens

## Main results

* `Handles.inOrder_snoc` — one more event
* `Handles.InOrder.nodup_held` — nothing is held twice
-/

namespace Handles

variable {ρ : Type*}

/-- Something done with a handle. -/
inductive Event (ρ : Type*)
  | opened (r : ρ)
  | closed (r : ρ)
  deriving DecidableEq, Repr

variable [DecidableEq ρ]

/-- What is held after one more event. -/
def hold (l : List ρ) : Event ρ → List ρ
  | .opened r => r :: l
  | .closed r => l.erase r

/-- What has been opened and not closed since. -/
def held (es : List (Event ρ)) : List ρ := es.foldl hold []

/-- An event that is possible when `l` is held. -/
def Event.Allowed (l : List ρ) : Event ρ → Prop
  | .opened r => r ∉ l
  | .closed r => r ∈ l

/-- **What is closed is held, and what is opened is not.** -/
def InOrder (es : List (Event ρ)) : Prop :=
  ∀ es₁ e es₂, es = es₁ ++ e :: es₂ → e.Allowed (held es₁)

@[simp] theorem held_nil : held ([] : List (Event ρ)) = [] := rfl

@[simp] theorem held_snoc (es : List (Event ρ)) (e : Event ρ) :
    held (es ++ [e]) = hold (held es) e := by
  rw [held, List.foldl_append]
  rfl

theorem inOrder_nil : InOrder ([] : List (Event ρ)) := by
  intro es₁ e es₂ h
  simp at h

/-- One more event. -/
theorem inOrder_snoc {es : List (Event ρ)} {e : Event ρ} :
    InOrder (es ++ [e]) ↔ InOrder es ∧ e.Allowed (held es) := by
  constructor
  · intro h
    refine ⟨fun es₁ f es₂ hes => h es₁ f (es₂ ++ [e]) ?_, h es e [] rfl⟩
    rw [hes, List.append_assoc, List.cons_append]
  · rintro ⟨h, hlast⟩ es₁ f es₂ hes
    rcases List.eq_nil_or_concat es₂ with rfl | ⟨es₃, g, rfl⟩
    · obtain ⟨rfl, heq⟩ := List.append_inj' hes rfl
      obtain ⟨rfl, -⟩ := List.cons.inj heq
      exact hlast
    · rw [List.concat_eq_append, ← List.cons_append, ← List.append_assoc] at hes
      obtain ⟨rfl, -⟩ := List.append_inj' hes rfl
      exact h es₁ f es₃ rfl

theorem nodup_hold {l : List ρ} (hl : l.Nodup) {e : Event ρ} (he : e.Allowed l) :
    (hold l e).Nodup := by
  cases e with
  | opened r => exact List.nodup_cons.mpr ⟨he, hl⟩
  | closed r => exact hl.erase r

/-- Nothing is held twice. -/
theorem InOrder.nodup_held {es : List (Event ρ)} (h : InOrder es) : (held es).Nodup := by
  induction es using List.reverseRecOn with
  | nil => exact List.nodup_nil
  | append_singleton es e ih =>
    obtain ⟨hes, he⟩ := inOrder_snoc.mp h
    rw [held_snoc]
    exact nodup_hold (ih hes) he

end Handles
