import Mathlib.Data.List.Induction

/-!
# Runs of a step system

A step system is a function `step : σ → ι → Option (σ × ο)`: at state `s` the input `i` leads to
a new state and an output, or cannot happen there at all. Everything nondeterministic about a
program (which call comes next, what its environment answers) is part of the input.

`RunWhere step C s₀ tr s` says that `s` is reached from `s₀` by a run with history `tr` whose
every step meets the condition `C` on the state before it and its input; `Run` is the case of no
condition. The history is kept oldest first and grows at its end, so that an invariant may speak
about what has happened so far as well as about the present state.

## Main definitions

* `StepSystem.RunWhere`, `StepSystem.Run` — finite runs
* `StepSystem.Always` — every step of a history is good, given what happened before it
* `StepSystem.exec` — running a list of inputs, for evaluating concrete runs

## Main results

* `StepSystem.RunWhere.invariant` — the induction rule every run lemma goes through
* `StepSystem.RunWhere.mono` — weakening the condition on the steps
* `StepSystem.RunWhere.always` — a condition that makes every step good makes every run good
* `StepSystem.RunWhere.always_iff`, `StepSystem.Run.always_iff_of_good` — a condition that says
  exactly when a step is good says exactly which runs are
* `StepSystem.run_of_exec` — an evaluated run is a run
-/

namespace StepSystem

variable {σ ι ο : Type*} {step : σ → ι → Option (σ × ο)} {C D : σ → ι → Prop} {s₀ : σ}

/-- `s` is reached from `s₀` by steps that all meet `C`; `tr` is what happened, oldest first. -/
inductive RunWhere (step : σ → ι → Option (σ × ο)) (C : σ → ι → Prop) (s₀ : σ) :
    List (ι × ο) → σ → Prop
  /-- Nothing has happened yet. -/
  | nil : RunWhere step C s₀ [] s₀
  /-- One more step, at the end. -/
  | snoc {tr : List (ι × ο)} {s t : σ} {i : ι} {o : ο} (run : RunWhere step C s₀ tr s)
      (cond : C s i) (next : step s i = some (t, o)) : RunWhere step C s₀ (tr ++ [(i, o)]) t

/-- A run without a condition on its steps. -/
abbrev Run (step : σ → ι → Option (σ × ο)) (s₀ : σ) : List (ι × ο) → σ → Prop :=
  RunWhere step (fun _ _ => True) s₀

/-- **The induction rule.** What holds at the start and is kept by every step that meets `C`
holds after every run of such steps; the invariant may mention the history. -/
theorem RunWhere.invariant {P : List (ι × ο) → σ → Prop} (start : P [] s₀)
    (keep : ∀ {tr s i t o}, P tr s → C s i → step s i = some (t, o) → P (tr ++ [(i, o)]) t)
    {tr : List (ι × ο)} {s : σ} (h : RunWhere step C s₀ tr s) : P tr s := by
  induction h with
  | nil => exact start
  | snoc _ cond next ih => exact keep ih cond next

/-- A run whose steps meet `C` is a run whose steps meet anything weaker. -/
theorem RunWhere.mono (hCD : ∀ s i, C s i → D s i) {tr : List (ι × ο)} {s : σ}
    (h : RunWhere step C s₀ tr s) : RunWhere step D s₀ tr s := by
  induction h with
  | nil => exact .nil
  | snoc _ cond next ih => exact ih.snoc (hCD _ _ cond) next

/-- Forgetting the condition. -/
theorem RunWhere.run {tr : List (ι × ο)} {s : σ} (h : RunWhere step C s₀ tr s) :
    Run step s₀ tr s :=
  h.mono fun _ _ _ => trivial

/-- Two runs, one after the other. -/
theorem RunWhere.append {tr tr' : List (ι × ο)} {s t : σ} (h : RunWhere step C s₀ tr s)
    (h' : RunWhere step C s tr' t) : RunWhere step C s₀ (tr ++ tr') t := by
  induction h' with
  | nil => simpa using h
  | snoc _ cond next ih =>
    rw [← List.append_assoc]
    exact ih.snoc cond next

/-- The last step of a run. -/
theorem RunWhere.of_snoc {tr : List (ι × ο)} {e : ι × ο} {t : σ}
    (h : RunWhere step C s₀ (tr ++ [e]) t) :
    ∃ s, RunWhere step C s₀ tr s ∧ C s e.1 ∧ step s e.1 = some (t, e.2) := by
  generalize htr : tr ++ [e] = tr' at h
  cases h with
  | nil => simp at htr
  | snoc run cond next =>
    obtain ⟨rfl, rfl⟩ := List.append_inj' htr rfl |>.imp_right fun h => List.cons.inj h |>.1
    exact ⟨_, run, cond, next⟩

/-- A run, taken apart. -/
theorem RunWhere.of_append {tr tr' : List (ι × ο)} {t : σ}
    (h : RunWhere step C s₀ (tr ++ tr') t) :
    ∃ s, RunWhere step C s₀ tr s ∧ RunWhere step C s tr' t := by
  induction tr' using List.reverseRecOn generalizing t with
  | nil => exact ⟨t, by simpa using h, .nil⟩
  | append_singleton tr' e ih =>
    rw [← List.append_assoc] at h
    obtain ⟨u, hu, cond, next⟩ := h.of_snoc
    obtain ⟨s, hs, hsu⟩ := ih hu
    exact ⟨s, hs, hsu.snoc cond next⟩

/-- The first step of a run. -/
theorem RunWhere.of_cons {tr : List (ι × ο)} {e : ι × ο} {t : σ}
    (h : RunWhere step C s₀ (e :: tr) t) :
    ∃ s, C s₀ e.1 ∧ step s₀ e.1 = some (s, e.2) ∧ RunWhere step C s tr t := by
  obtain ⟨s, hs, hst⟩ := RunWhere.of_append (show RunWhere step C s₀ ([e] ++ tr) t from h)
  obtain ⟨s', hs', cond, next⟩ := RunWhere.of_snoc (show RunWhere step C s₀ ([] ++ [e]) s from hs)
  generalize hnil : ([] : List (ι × ο)) = tr' at hs'
  cases hs' with
  | nil => exact ⟨s, cond, next, hst⟩
  | snoc run cond next => simp at hnil

/-- The history determines where a run ends. -/
theorem RunWhere.unique {tr : List (ι × ο)} {s t : σ} (h : RunWhere step C s₀ tr s)
    (h' : RunWhere step D s₀ tr t) : s = t := by
  induction h generalizing t with
  | nil =>
    generalize htr : ([] : List (ι × ο)) = tr at h'
    cases h' with
    | nil => rfl
    | snoc run cond next => simp at htr
  | snoc run cond next ih =>
    obtain ⟨s', run', -, next'⟩ := h'.of_snoc
    rw [ih run', next'] at next
    simpa using next.symm

/-! ### Good histories -/

/-- Every step of a history is good: `P` holds of what happened before it, its input and its
output. -/
def Always (P : List (ι × ο) → ι → ο → Prop) (tr : List (ι × ο)) : Prop :=
  ∀ tr₁ i o tr₂, tr = tr₁ ++ (i, o) :: tr₂ → P tr₁ i o

variable {P : List (ι × ο) → ι → ο → Prop}

theorem always_nil : Always P [] := by
  intro tr₁ i o tr₂ h
  simp at h

/-- The beginning of a good history is good. -/
theorem Always.of_append {tr tr' : List (ι × ο)} (h : Always P (tr ++ tr')) : Always P tr := by
  intro tr₁ i o tr₂ htr
  refine h tr₁ i o (tr₂ ++ tr') ?_
  rw [htr, List.append_assoc, List.cons_append]

theorem always_snoc {tr : List (ι × ο)} {i : ι} {o : ο} :
    Always P (tr ++ [(i, o)]) ↔ Always P tr ∧ P tr i o := by
  constructor
  · intro h
    exact ⟨h.of_append, h tr i o [] rfl⟩
  · rintro ⟨h, hlast⟩ tr₁ j o' tr₂ htr
    rcases List.eq_nil_or_concat tr₂ with rfl | ⟨tr₃, e, rfl⟩
    · obtain ⟨rfl, heq⟩ := List.append_inj' htr rfl
      obtain ⟨rfl, rfl⟩ := Prod.mk.inj (List.cons.inj heq).1
      exact hlast
    · rw [List.concat_eq_append, ← List.cons_append, ← List.append_assoc] at htr
      obtain ⟨rfl, -⟩ := List.append_inj' htr rfl
      exact h tr₁ j o' tr₃ rfl

/-- **A condition that makes steps good** makes every run of such steps good. -/
theorem RunWhere.always
    (good : ∀ {tr s i t o}, RunWhere step C s₀ tr s → C s i → step s i = some (t, o) → P tr i o)
    {tr : List (ι × ο)} {s : σ} (h : RunWhere step C s₀ tr s) : Always P tr := by
  induction h with
  | nil => exact always_nil
  | snoc run cond next ih => exact always_snoc.mpr ⟨ih, good run cond next⟩

/-- A condition that says exactly when a step is good, as long as every step so far has met it,
says exactly which runs are good. -/
theorem Run.always_iff_of_good
    (good : ∀ {tr s i t o}, RunWhere step C s₀ tr s → step s i = some (t, o) →
      (P tr i o ↔ C s i))
    {tr : List (ι × ο)} {s : σ} (h : Run step s₀ tr s) :
    Always P tr ↔ RunWhere step C s₀ tr s := by
  induction h with
  | nil => exact ⟨fun _ => .nil, fun _ => always_nil⟩
  | snoc run _ next ih =>
    rw [always_snoc, ih]
    constructor
    · rintro ⟨hrun, hlast⟩
      exact hrun.snoc ((good hrun next).mp hlast) next
    · intro hrun
      obtain ⟨s', hrun', cond, -⟩ := hrun.of_snoc
      obtain rfl := run.unique hrun'
      exact ⟨hrun', (good hrun' next).mpr cond⟩

/-- **A condition that says exactly when a step is good** says exactly which runs are; the steps may
be known to meet another condition. -/
theorem RunWhere.always_iff
    (good : ∀ {tr s i t o}, RunWhere step D s₀ tr s → D s i → step s i = some (t, o) →
      (P tr i o ↔ C s i))
    {tr : List (ι × ο)} {s : σ} (h : RunWhere step D s₀ tr s) :
    Always P tr ↔ RunWhere step C s₀ tr s := by
  induction h with
  | nil => exact ⟨fun _ => .nil, fun _ => always_nil⟩
  | snoc run cond next ih =>
    rw [always_snoc, ih, good run cond next]
    constructor
    · rintro ⟨hrun, hlast⟩
      exact hrun.snoc hlast next
    · intro hrun
      obtain ⟨s', hrun', hlast, -⟩ := hrun.of_snoc
      obtain rfl := run.unique hrun'
      exact ⟨hrun', hlast⟩

theorem Run.always_iff
    (good : ∀ {tr s i t o}, Run step s₀ tr s → step s i = some (t, o) → (P tr i o ↔ C s i))
    {tr : List (ι × ο)} {s : σ} (h : Run step s₀ tr s) :
    Always P tr ↔ RunWhere step C s₀ tr s :=
  RunWhere.always_iff (P := P) (C := C) (fun hrun _ next => good hrun next) h

/-- Two properties that agree on the steps of a run hold of the same runs. -/
theorem Run.always_congr {Q : List (ι × ο) → ι → ο → Prop}
    (good : ∀ {tr s i t o}, Run step s₀ tr s → step s i = some (t, o) → (P tr i o ↔ Q tr i o))
    {tr : List (ι × ο)} {s : σ} (h : Run step s₀ tr s) : Always P tr ↔ Always Q tr := by
  induction h with
  | nil => exact iff_of_true always_nil always_nil
  | snoc run _ next ih => rw [always_snoc, always_snoc, ih, good run next]

/-! ### Evaluating a run -/

/-- Take the inputs one after the other, checking the condition before each step; `none` when a
step is not possible or not allowed. -/
def exec (step : σ → ι → Option (σ × ο)) (C : σ → ι → Prop) [∀ s i, Decidable (C s i)] (s : σ) :
    List ι → Option (List (ι × ο) × σ)
  | [] => some ([], s)
  | i :: is =>
    if C s i then
      match step s i with
      | none => none
      | some (t, o) => (exec step C t is).map fun r => ((i, o) :: r.1, r.2)
    else none

/-- What `exec` returns is a run. -/
theorem run_of_exec [∀ s i, Decidable (C s i)] {is : List ι} :
    ∀ {s t : σ} {tr : List (ι × ο)}, exec step C s is = some (tr, t) → RunWhere step C s tr t := by
  induction is with
  | nil =>
    intro s t tr h
    simp only [exec, Option.some.injEq, Prod.mk.injEq] at h
    obtain ⟨rfl, rfl⟩ := h
    exact .nil
  | cons i is ih =>
    intro s t tr h
    simp only [exec] at h
    split at h
    · rename_i cond
      split at h
      · cases h
      · rename_i u o next
        obtain ⟨⟨tr', t'⟩, hrest, hr⟩ := Option.map_eq_some_iff.mp h
        simp only [Prod.mk.injEq] at hr
        obtain ⟨rfl, rfl⟩ := hr
        have hone : RunWhere step C s ([] ++ [(i, o)]) u := RunWhere.nil.snoc cond next
        exact hone.append (ih hrest)
    · cases h

end StepSystem
