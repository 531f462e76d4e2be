import Mathlib.Data.List.Induction

/-!
# Linear resources

A program's dealings with the resources it owns, as a list of events: a resource is acquired, used
any number of times and released. `phase r es` follows one resource through the list; it is `none`
from the first event on that is out of order (an acquisition of something that has been acquired
before, a use or a release of something that is not held).

That a resource has reached `gone` says everything at once: it was released exactly once, and
nothing was done with it afterwards (`releasedOnce_of_gone`).

## Main definitions

* `Ledger.Event`, `Ledger.Phase` — what can happen to a resource, and where it stands
* `Ledger.run` — the phase after a list of events
* `Ledger.ReleasedOnce` — one release, no use after it
* `Ledger.Settled` — never touched, or gone

## Main results

* `Ledger.run_append` — phases compose
* `Ledger.releasedOnce_of_gone`, `Ledger.unreleased_of_held` — what the phases mean
* `Ledger.gone_of_append` — gone is forever
* `Ledger.settled_bracket` — what is taken before something and given back after it
-/

namespace Ledger

variable {ρ : Type*}

/-- Something done with a resource. -/
inductive Event (ρ : Type*)
  | acquire (r : ρ)
  | use (r : ρ)
  | release (r : ρ)
  deriving DecidableEq, Repr

/-- The resource an event is about. -/
def Event.resource : Event ρ → ρ
  | .acquire r => r
  | .use r => r
  | .release r => r

/-- Where a resource stands. -/
inductive Phase
  | untouched
  | held
  | gone
  deriving DecidableEq, Repr

/-- The only order in which things may be done with one resource. -/
def Phase.next : Phase → Event ρ → Option Phase
  | .untouched, .acquire _ => some .held
  | .held, .use _ => some .held
  | .held, .release _ => some .gone
  | _, _ => none

variable [DecidableEq ρ]

/-- The phase of `r` after one more event. -/
def advance (r : ρ) (p : Option Phase) (e : Event ρ) : Option Phase :=
  if e.resource = r then p.bind fun q => q.next e else p

/-- The phase of `r` after more events. -/
def run (r : ρ) (p : Option Phase) (es : List (Event ρ)) : Option Phase := es.foldl (advance r) p

/-- The phase of `r` after all events; `none` when some event was out of order. -/
def phase (r : ρ) (es : List (Event ρ)) : Option Phase := run r (some .untouched) es

@[simp] theorem run_nil (r : ρ) (p : Option Phase) : run r p [] = p := rfl

@[simp] theorem run_cons (r : ρ) (p : Option Phase) (e : Event ρ) (es : List (Event ρ)) :
    run r p (e :: es) = run r (advance r p e) es := rfl

/-- Phases compose. -/
theorem run_append (r : ρ) (p : Option Phase) (es fs : List (Event ρ)) :
    run r p (es ++ fs) = run r (run r p es) fs := List.foldl_append

theorem phase_append (r : ρ) (es fs : List (Event ρ)) :
    phase r (es ++ fs) = run r (phase r es) fs := run_append r _ es fs

theorem advance_of_ne {r : ρ} {e : Event ρ} (h : e.resource ≠ r) (p : Option Phase) :
    advance r p e = p := if_neg h

/-- Events about other resources do not matter. -/
theorem run_of_forall_ne {r : ρ} {es : List (Event ρ)} (h : ∀ e ∈ es, e.resource ≠ r)
    (p : Option Phase) : run r p es = p := by
  induction es generalizing p with
  | nil => rfl
  | cons e es ih =>
    rw [run_cons, advance_of_ne (h e List.mem_cons_self),
      ih fun f hf => h f (List.mem_cons_of_mem _ hf)]

/-- Uses of what is held do not matter either. -/
theorem run_of_forall_use {r : ρ} {p : Option Phase} {es : List (Event ρ)}
    (h : ∀ e ∈ es, ∃ x, e = .use x ∧ (x = r → p = some .held)) : run r p es = p := by
  induction es with
  | nil => rfl
  | cons e es ih =>
    obtain ⟨x, rfl, hx⟩ := h e List.mem_cons_self
    have hone : advance r p (.use x) = p := by
      by_cases hxr : x = r
      · rw [hx hxr, advance, if_pos (show (Event.use x).resource = r from hxr)]
        rfl
      · exact advance_of_ne (show (Event.use x).resource ≠ r from hxr) p
    rw [run_cons, hone, ih fun f hf => h f (List.mem_cons_of_mem _ hf)]

/-! ### Out of order -/

@[simp] theorem run_none (r : ρ) (es : List (Event ρ)) : run r none es = none := by
  induction es with
  | nil => rfl
  | cons e es ih =>
    rw [run_cons]
    have hone : advance r none e = none := by
      rw [advance]
      split <;> rfl
    rw [hone, ih]

/-- Whatever is done with a resource that is gone is out of order. -/
theorem run_gone (r : ρ) (es : List (Event ρ)) :
    run r (some .gone) es = none ∨
      run r (some .gone) es = some .gone ∧ ∀ e ∈ es, e.resource ≠ r := by
  induction es with
  | nil => exact .inr ⟨rfl, by simp⟩
  | cons e es ih =>
    by_cases he : e.resource = r
    · refine .inl ?_
      have hone : advance r (some .gone) e = none := by
        rw [advance, if_pos he]
        cases e <;> rfl
      rw [run_cons, hone, run_none]
    · rw [run_cons, advance_of_ne he]
      rcases ih with ih | ⟨ih, hes⟩
      · exact .inl ih
      · exact .inr ⟨ih, List.forall_mem_cons.mpr ⟨he, hes⟩⟩

/-- Gone is forever, as long as nothing is out of order. -/
theorem gone_of_append {r : ρ} {es fs : List (Event ρ)} (h : phase r es = some .gone)
    (hok : phase r (es ++ fs) ≠ none) : phase r (es ++ fs) = some .gone := by
  rw [phase_append, h] at hok ⊢
  exact ((run_gone r fs).resolve_left hok).1

/-! ### What the phases mean -/

/-- `r` was released once, and nothing was done with it after that. -/
def ReleasedOnce (r : ρ) (es : List (Event ρ)) : Prop :=
  ∃ before after, es = before ++ .release r :: after ∧ (∀ e ∈ before, e ≠ .release r) ∧
    ∀ e ∈ after, e.resource ≠ r

/-- What is held, or was never touched, has not been released. -/
theorem unreleased_of_not_gone {r : ρ} {es : List (Event ρ)} {p q : Phase} (hp : p ≠ .gone)
    (hq : q ≠ .gone) (h : run r (some p) es = some q) : ∀ e ∈ es, e ≠ .release r := by
  induction es generalizing p with
  | nil => simp
  | cons e es ih =>
    rw [run_cons] at h
    by_cases he : e.resource = r
    · rw [advance, if_pos he, Option.bind_some] at h
      have hne : e ≠ .release r := by
        rintro rfl
        cases p with
        | untouched => simp [Phase.next] at h
        | held =>
          rcases run_gone r es with hg | ⟨hg, -⟩
          · rw [Phase.next, hg] at h; cases h
          · rw [Phase.next, hg] at h
            exact hq (Option.some.inj h).symm
        | gone => exact hp rfl
      cases hn : p.next e with
      | none => rw [hn, run_none] at h; cases h
      | some p' =>
        rw [hn] at h
        have hp' : p' ≠ .gone := by
          rintro rfl
          cases p <;> cases e <;> simp [Phase.next, Event.resource] at hn he
          exact hne (by rw [he])
        exact List.forall_mem_cons.mpr ⟨hne, ih hp' h⟩
    · rw [advance_of_ne he] at h
      refine List.forall_mem_cons.mpr ⟨?_, ih hp h⟩
      rintro rfl
      exact he rfl

theorem unreleased_of_held {r : ρ} {es : List (Event ρ)} (h : phase r es = some .held) :
    ∀ e ∈ es, e ≠ .release r := unreleased_of_not_gone (by decide) (by decide) h

/-- **What is gone** was released exactly once and not used afterwards. -/
theorem releasedOnce_of_gone {r : ρ} {es : List (Event ρ)} (h : phase r es = some .gone) :
    ReleasedOnce r es := by
  induction es using List.reverseRecOn with
  | nil => cases h
  | append_singleton es e ih =>
    rw [phase_append, run_cons, run_nil] at h
    by_cases he : e.resource = r
    · rw [advance, if_pos he] at h
      obtain ⟨q, hq, hnext⟩ := Option.bind_eq_some_iff.mp h
      -- only a release leads to `gone`
      cases q <;> cases e <;> simp [Phase.next, Event.resource] at hnext he
      subst he
      exact ⟨es, [], rfl, unreleased_of_held hq, by simp⟩
    · rw [advance_of_ne he] at h
      obtain ⟨before, after, rfl, hb, ha⟩ := ih h
      refine ⟨before, after ++ [e], by simp, hb, ?_⟩
      intro f hf
      rcases List.mem_append.mp hf with hf | hf
      · exact ha f hf
      · rw [List.mem_singleton.mp hf]
        exact he

/-! ### Settled resources -/

/-- `r` has not been touched, or it is gone. -/
def Settled (r : ρ) (es : List (Event ρ)) : Prop :=
  phase r es = some .untouched ∨ phase r es = some .gone

theorem settled_nil (r : ρ) : Settled r [] := .inl rfl

/-- What is untouched at the end has never been touched. -/
theorem resource_ne_of_untouched {r : ρ} {es : List (Event ρ)}
    (h : phase r es = some .untouched) : ∀ e ∈ es, e.resource ≠ r := by
  induction es using List.reverseRecOn with
  | nil => simp
  | append_singleton es e ih =>
    rw [phase_append, run_cons, run_nil] at h
    by_cases he : e.resource = r
    · rw [advance, if_pos he] at h
      obtain ⟨q, -, hnext⟩ := Option.bind_eq_some_iff.mp h
      cases q <;> cases e <;> simp [Phase.next] at hnext
    · rw [advance_of_ne he] at h
      intro f hf
      rcases List.mem_append.mp hf with hf | hf
      · exact ih h f hf
      · rw [List.mem_singleton.mp hf]
        exact he

/-- A settled resource that has been taken was released exactly once. -/
theorem Settled.releasedOnce {r : ρ} {es : List (Event ρ)} (h : Settled r es)
    (hr : .acquire r ∈ es) : ReleasedOnce r es := by
  rcases h with h | h
  · exact absurd rfl (resource_ne_of_untouched h _ hr)
  · exact releasedOnce_of_gone h

/-- Events that are about other resources come before. -/
theorem Settled.append {r : ρ} {es fs : List (Event ρ)} (hes : ∀ e ∈ es, e.resource ≠ r)
    (h : Settled r fs) : Settled r (es ++ fs) := by
  have hrun : phase r es = some .untouched := run_of_forall_ne hes _
  rw [Settled, phase_append, hrun]
  exact h

@[simp] theorem advance_acquire (r : ρ) :
    advance r (some .untouched) (.acquire r) = some .held := by
  simp [advance, Event.resource, Phase.next]

@[simp] theorem advance_release (r : ρ) : advance r (some .held) (.release r) = some .gone := by
  simp [advance, Event.resource, Phase.next]

/-- **A bracket**: a resource that is taken before something and given back after it is settled,
and the others are if they are settled within. -/
theorem settled_bracket {r₀ : ρ} {es : List (Event ρ)}
    (hself : run r₀ (some .held) es = some .held) {r : ρ} (hother : r ≠ r₀ → Settled r es) :
    Settled r (.acquire r₀ :: es ++ [.release r₀]) := by
  rw [Settled, phase, run_append, run_cons, run_nil, run_cons]
  by_cases hr : r = r₀
  · subst hr
    rw [advance_acquire, hself, advance_release]
    exact .inr rfl
  · have hne : (Event.acquire r₀).resource ≠ r := fun h => hr h.symm
    have hne' : (Event.release r₀).resource ≠ r := fun h => hr h.symm
    rw [advance_of_ne hne, advance_of_ne hne']
    exact hother hr

end Ledger
