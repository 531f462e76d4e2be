import Mathlib.Data.List.Forall2

/-!
# Computations that can fail

What it means that a sequence of computations in `Except` gives a value, whatever the errors are.

## Main results

* `Fallible.bind_eq_ok` — one computation after another
* `Fallible.mapM_eq_ok` — the same computation for each element of a list
* `Fallible.Covers.bind`, `Fallible.Covers.foldlM` — a computation that does the same as another one
  wherever that has a meaning
-/

namespace Fallible

variable {ε α β : Type}

theorem ok_bind (a : α) (f : α → Except ε β) : (.ok a >>= f : Except ε β) = f a := rfl

theorem error_bind (e : ε) (f : α → Except ε β) : (.error e >>= f : Except ε β) = .error e := rfl

/-- One computation after another gives a value when both do. -/
theorem bind_eq_ok {x : Except ε α} {f : α → Except ε β} {b : β} :
    x >>= f = .ok b ↔ ∃ a, x = .ok a ∧ f a = .ok b := by
  cases x with
  | error e => exact iff_of_false (by rintro ⟨⟩) (by rintro ⟨a, ⟨⟩, -⟩)
  | ok a =>
    constructor
    · exact fun h => ⟨a, rfl, h⟩
    · rintro ⟨a', ha, h⟩
      cases ha
      exact h

/-- One computation after another gives no error that neither of them gives. -/
theorem bind_ne_error {x : Except ε α} {f : α → Except ε β} {e : ε} (hx : x ≠ .error e)
    (hf : ∀ a, f a ≠ .error e) : x >>= f ≠ .error e := by
  cases x with
  | error e' =>
    rintro h
    exact hx (congrArg Except.error (Except.error.inj h))
  | ok a => exact hf a

/-- A computation for each element of a list gives values when each does. -/
theorem mapM_eq_ok {f : α → Except ε β} {l : List α} {r : List β} :
    l.mapM f = .ok r ↔ List.Forall₂ (fun a b => f a = .ok b) l r := by
  induction l generalizing r with
  | nil =>
    rw [List.mapM_nil, List.forall₂_nil_left_iff]
    exact ⟨fun h => by cases h; rfl, fun h => by rw [h]; rfl⟩
  | cons a l ih =>
    rw [List.mapM_cons, bind_eq_ok, List.forall₂_cons_left_iff]
    constructor
    · rintro ⟨b, hb, h⟩
      obtain ⟨bs, hbs, h⟩ := bind_eq_ok.mp h
      cases h
      exact ⟨b, bs, hb, ih.mp hbs, rfl⟩
    · rintro ⟨b, bs, hb, hbs, rfl⟩
      exact ⟨b, hb, bind_eq_ok.mpr ⟨bs, ih.mpr hbs, rfl⟩⟩

/-- When it gives an error, it does so for some element. -/
theorem exists_of_mapM_eq_error {f : α → Except ε β} {l : List α} {e : ε}
    (h : l.mapM f = .error e) : ∃ a ∈ l, f a = .error e := by
  induction l with
  | nil => cases h
  | cons a l ih =>
    rw [List.mapM_cons] at h
    cases ha : f a with
    | error e' =>
      rw [ha, error_bind] at h
      exact ⟨a, List.mem_cons_self, ha.trans (congrArg Except.error (Except.error.inj h))⟩
    | ok b =>
      rw [ha, ok_bind] at h
      cases hl : l.mapM f with
      | error e' =>
        rw [hl, error_bind] at h
        obtain ⟨c, hc, hfc⟩ := ih (hl.trans h)
        exact ⟨c, List.mem_cons_of_mem a hc, hfc⟩
      | ok bs =>
        rw [hl] at h
        cases h

/-- Values for a whole list, from a value for each element. -/
theorem exists_forall₂_iff {R : α → β → Prop} {l : List α} :
    (∃ r, List.Forall₂ R l r) ↔ ∀ a ∈ l, ∃ b, R a b := by
  induction l with
  | nil => exact iff_of_true ⟨[], .nil⟩ (by simp)
  | cons a l ih =>
    rw [List.forall_mem_cons, ← ih]
    constructor
    · rintro ⟨r, h⟩
      obtain ⟨b, bs, hb, hbs, -⟩ := List.forall₂_cons_left_iff.mp h
      exact ⟨⟨b, hb⟩, bs, hbs⟩
    · rintro ⟨⟨b, hb⟩, bs, hbs⟩
      exact ⟨b :: bs, .cons hb hbs⟩

/-- A loop whose turns never give the error `e` never gives it. -/
theorem foldlM_ne_error {σ : Type} {f : σ → α → Except ε σ} {e : ε}
    (h : ∀ s a, f s a ≠ .error e) (l : List α) (s : σ) : l.foldlM f s ≠ .error e := by
  induction l generalizing s with
  | nil => rintro ⟨⟩
  | cons a l ih =>
    rw [List.foldlM_cons]
    cases hs : f s a with
    | error e' =>
      rw [error_bind, ← hs]
      intro he
      exact h s a he
    | ok t =>
      rw [ok_bind]
      exact ih t

/-! ### Covering -/

/-- `x` is what `y` is, unless that is the error `e`. -/
def Covers (e : ε) (x y : Except ε α) : Prop := y ≠ .error e → x = y

theorem Covers.of_eq {e : ε} {x y : Except ε α} (h : x = y) : Covers e x y := fun _ => h

/-- One computation after another. -/
theorem Covers.bind {e : ε} {x y : Except ε α} {f g : α → Except ε β} (h : Covers e x y)
    (hfg : ∀ a, y = .ok a → Covers e (f a) (g a)) : Covers e (x >>= f) (y >>= g) := by
  intro hne
  cases hy : y with
  | error e' =>
    rw [hy] at hne h
    have hx : x = .error e' := h (by rintro ⟨⟩; exact hne rfl)
    rw [hx]
    rfl
  | ok a =>
    have hx : x = .ok a := by rw [h (by rw [hy]; rintro ⟨⟩), hy]
    rw [hy] at hne
    rw [hx]
    exact hfg a hy hne

/-- The same for each element of a list, in turn. -/
theorem Covers.foldlM {σ : Type} {e : ε} {f g : σ → α → Except ε σ} {l : List α} {s : σ}
    (h : ∀ s, ∀ a ∈ l, Covers e (f s a) (g s a)) : Covers e (l.foldlM f s) (l.foldlM g s) := by
  induction l generalizing s with
  | nil => exact .of_eq rfl
  | cons a l ih =>
    rw [List.foldlM_cons, List.foldlM_cons]
    exact (h s a List.mem_cons_self).bind
      fun t _ => ih fun s b hb => h s b (List.mem_cons_of_mem a hb)

end Fallible
