import A1000.Lib.Fallible

/-!
# Computations that leave a trace

A computation that may stop with an error, together with the events up to the place where it
stopped. An event of a sequence of computations is one of the first, or one of the second if the
first has given a value; so what can be said of the events of a program is said by walking through
its text.

## Main definitions

* `Traced` — the events, and the value or the error
* `Traced.emit`, `Traced.lift` — an event, a computation without events
* `Traced.releasing`, `Traced.undoing` — what is done at the end, whether or not it has failed

## Main results

* `Traced.mem_bind`, `Traced.mem_foldlM` — the events of a sequence and of a loop
* `Traced.result_bind`, `Traced.result_foldlM` — their results
-/

/-- What a computation has done, and what has come of it. -/
structure Traced (ε η α : Type) where
  events : List η
  result : Except ε α

namespace Traced

variable {ε η α β σ : Type}

/-- Something happens. -/
def emit (es : List η) : Traced ε η Unit := ⟨es, .ok ()⟩

/-- A computation in which nothing happens. -/
def lift (x : Except ε α) : Traced ε η α := ⟨[], x⟩

instance : Monad (Traced ε η) where
  pure a := ⟨[], .ok a⟩
  bind x f :=
    match x.result with
    | .ok a => ⟨x.events ++ (f a).events, (f a).result⟩
    | .error e => ⟨x.events, .error e⟩

/-- `release` at the end, if there is a value or the error is `failed`; any other error ends
everything. -/
def releasing [DecidableEq ε] (failed : ε) (release : η) (x : Traced ε η α) : Traced ε η α :=
  match x.result with
  | .ok a => ⟨x.events ++ [release], .ok a⟩
  | .error e => if e = failed then ⟨x.events ++ [release], .error e⟩ else x

/-- `undo` at the end, if the error is `failed`. -/
def undoing [DecidableEq ε] (failed : ε) (undo : η) (x : Traced ε η α) : Traced ε η α :=
  match x.result with
  | .ok _ => x
  | .error e => if e = failed then ⟨x.events ++ [undo], .error e⟩ else x

/-! ### Results -/

@[simp] theorem result_pure (a : α) : (pure a : Traced ε η α).result = .ok a := rfl

@[simp] theorem result_emit (es : List η) : (emit es : Traced ε η Unit).result = .ok () := rfl

@[simp] theorem result_lift (x : Except ε α) : (lift x : Traced ε η α).result = x := rfl

@[simp] theorem result_bind (x : Traced ε η α) (f : α → Traced ε η β) :
    (x >>= f).result = x.result >>= fun a => (f a).result := by
  simp only [bind, Except.bind]
  cases x.result <;> rfl

@[simp] theorem result_releasing [DecidableEq ε] (failed : ε) (release : η) (x : Traced ε η α) :
    (x.releasing failed release).result = x.result := by
  rw [releasing]
  split
  · rename_i h
    exact h.symm
  · rename_i h
    split
    · exact h.symm
    · rfl

@[simp] theorem result_undoing [DecidableEq ε] (failed : ε) (undo : η) (x : Traced ε η α) :
    (x.undoing failed undo).result = x.result := by
  rw [undoing]
  split
  · rfl
  · rename_i h
    split
    · exact h.symm
    · rfl

/-- A loop gives what it gives without its events. -/
theorem result_foldlM (f : σ → α → Traced ε η σ) (s : σ) (l : List α) :
    (l.foldlM f s).result = l.foldlM (fun s a => (f s a).result) s := by
  induction l generalizing s with
  | nil => rfl
  | cons a l ih => simp only [List.foldlM_cons, result_bind, ih]

/-! ### Events -/

@[simp] theorem events_pure (a : α) : (pure a : Traced ε η α).events = [] := rfl

@[simp] theorem events_emit (es : List η) : (emit es : Traced ε η Unit).events = es := rfl

@[simp] theorem events_lift (x : Except ε α) : (lift x : Traced ε η α).events = [] := rfl

theorem events_bind_of_ok {x : Traced ε η α} {a : α} (h : x.result = .ok a)
    (f : α → Traced ε η β) : (x >>= f).events = x.events ++ (f a).events := by
  simp only [bind, h]

theorem events_bind_of_error {x : Traced ε η α} {e : ε} (h : x.result = .error e)
    (f : α → Traced ε η β) : (x >>= f).events = x.events := by
  simp only [bind, h]

/-- What is made of a value at the end has no events. -/
theorem events_bind_pure (x : Traced ε η α) (g : α → β) :
    (x >>= fun a => pure (g a)).events = x.events := by
  cases h : x.result with
  | ok a => rw [events_bind_of_ok h, events_pure, List.append_nil]
  | error e => exact events_bind_of_error h _

@[simp] theorem events_emit_bind (es : List η) (f : Unit → Traced ε η β) :
    (emit es >>= f).events = es ++ (f ()).events := rfl

/-- **The events of a sequence.** -/
theorem mem_bind {x : Traced ε η α} {f : α → Traced ε η β} {e : η} :
    e ∈ (x >>= f).events ↔ e ∈ x.events ∨ ∃ a, x.result = .ok a ∧ e ∈ (f a).events := by
  cases h : x.result with
  | ok a => simp [events_bind_of_ok h]
  | error err => simp [events_bind_of_error h]

@[simp] theorem mem_lift_bind {x : Except ε α} {f : α → Traced ε η β} {e : η} :
    e ∈ (lift x >>= f).events ↔ ∃ a, x = .ok a ∧ e ∈ (f a).events := by
  rw [mem_bind, events_lift, result_lift]
  simp

/-- **The events of a loop**: those of each turn, in the state before it. -/
theorem mem_foldlM {f : σ → α → Traced ε η σ} {s : σ} {l : List α} {e : η} :
    e ∈ (l.foldlM f s).events ↔
      ∃ l₁ a l₂ t, l = l₁ ++ a :: l₂ ∧ l₁.foldlM (fun s a => (f s a).result) s = .ok t ∧
        e ∈ (f t a).events := by
  induction l generalizing s with
  | nil => simp [List.foldlM_nil]
  | cons a l ih =>
    rw [List.foldlM_cons, mem_bind]
    constructor
    · rintro (h | ⟨t, ht, h⟩)
      · exact ⟨[], a, l, s, rfl, rfl, h⟩
      · obtain ⟨l₁, b, l₂, u, rfl, hu, h⟩ := ih.mp h
        refine ⟨a :: l₁, b, l₂, u, rfl, ?_, h⟩
        rw [List.foldlM_cons, ht]
        exact hu
    · rintro ⟨l₁, b, l₂, u, hl, hu, h⟩
      cases l₁ with
      | nil =>
        obtain ⟨rfl, rfl⟩ := List.cons.inj hl
        cases hu
        exact .inl h
      | cons c l₁ =>
        obtain ⟨rfl, rfl⟩ := List.cons.inj hl
        rw [List.foldlM_cons] at hu
        obtain ⟨t, ht, hu⟩ := Fallible.bind_eq_ok.mp hu
        exact .inr ⟨t, ht, ih.mpr ⟨l₁, b, l₂, u, rfl, hu, h⟩⟩

/-- What is released at the end is the only further event. -/
theorem mem_releasing [DecidableEq ε] {failed : ε} {release e : η} {x : Traced ε η α}
    (he : e ≠ release) : e ∈ (x.releasing failed release).events ↔ e ∈ x.events := by
  rw [releasing]
  split
  · simp [he]
  · split
    · simp [he]
    · rfl

theorem mem_undoing [DecidableEq ε] {failed : ε} {undo e : η} {x : Traced ε η α}
    (he : e ≠ undo) : e ∈ (x.undoing failed undo).events ↔ e ∈ x.events := by
  rw [undoing]
  split
  · rfl
  · split
    · simp [he]
    · rfl

/-- A view of the events that does not see the release. -/
theorem filterMap_releasing [DecidableEq ε] {failed : ε} {release : η} {g : η → Option β}
    (hg : g release = none) (x : Traced ε η α) :
    (x.releasing failed release).events.filterMap g = x.events.filterMap g := by
  rw [releasing]
  split
  · simp [hg]
  · split
    · simp [hg]
    · rfl

theorem filterMap_undoing [DecidableEq ε] {failed : ε} {undo : η} {g : η → Option β}
    (hg : g undo = none) (x : Traced ε η α) :
    (x.undoing failed undo).events.filterMap g = x.events.filterMap g := by
  rw [undoing]
  split
  · rfl
  · split
    · simp [hg]
    · rfl

theorem events_releasing_of_failed [DecidableEq ε] {failed : ε} {x : Traced ε η α}
    (h : x.result = .error failed) (release : η) :
    (x.releasing failed release).events = x.events ++ [release] := by
  simp only [releasing, h, ↓reduceIte]

theorem events_undoing_of_failed [DecidableEq ε] {failed : ε} {x : Traced ε η α}
    (h : x.result = .error failed) (undo : η) :
    (x.undoing failed undo).events = x.events ++ [undo] := by
  simp only [undoing, h, ↓reduceIte]

theorem events_undoing_of_ok [DecidableEq ε] {failed : ε} {x : Traced ε η α} {a : α}
    (h : x.result = .ok a) (undo : η) : (x.undoing failed undo).events = x.events := by
  simp only [undoing, h]

end Traced
