import Mathlib.Data.Fintype.EquivFin

/-!
# Steps that may come to an end

A partial function taken as a step, and where it leads from a point. Since the step depends on
nothing but the point, to come back to a point is to go round for ever; so where there are finitely
many points to step from, the steps end exactly when no point is visited twice, and then within as
many steps as there are points.

## Main definitions

* `Orbit.orbit` — where the steps lead, one after the other
* `Orbit.Ends` — there is a last step
* `Orbit.Distinct` — no point is visited twice

## Main results

* `Orbit.invariant` — what a step keeps
* `Orbit.climb` — a height that every step raises bounds their number
* `Orbit.Ends.distinct` — steps that end do not come back
* `Orbit.Distinct.le_card` — steps that do not come back are as many as the points at most
-/

namespace Orbit

variable {σ : Type*} {f : σ → Option σ} {s t u : σ} {m n : ℕ}

/-- The point after so many steps, if there are so many. -/
def orbit (f : σ → Option σ) (s : σ) : ℕ → Option σ
  | 0 => some s
  | n + 1 => (orbit f s n).bind f

/-- The steps come to an end. -/
def Ends (f : σ → Option σ) (s : σ) : Prop := ∃ n, orbit f s n = none

/-- No point is visited twice. -/
def Distinct (f : σ → Option σ) (s : σ) : Prop :=
  ∀ m n t, orbit f s m = some t → orbit f s n = some t → m = n

theorem orbit_zero (f : σ → Option σ) (s : σ) : orbit f s 0 = some s := rfl

theorem orbit_succ (f : σ → Option σ) (s : σ) (n : ℕ) :
    orbit f s (n + 1) = (orbit f s n).bind f := rfl

/-- The first step taken apart. -/
theorem orbit_succ' (f : σ → Option σ) (s : σ) (n : ℕ) :
    orbit f s (n + 1) = (f s).bind fun t => orbit f t n := by
  induction n with
  | zero =>
    rw [orbit_succ, orbit_zero, Option.bind_some]
    exact (Option.bind_fun_some (f s)).symm
  | succ n ih =>
    rw [orbit_succ, ih]
    exact Option.bind_assoc ..

/-- The steps from a point that has been reached. -/
theorem orbit_add (h : orbit f s m = some t) (n : ℕ) : orbit f s (m + n) = orbit f t n := by
  induction n with
  | zero => exact h
  | succ n ih => rw [← Nat.add_assoc, orbit_succ, ih, orbit_succ]

/-- A point has been reached from the one before it. -/
theorem exists_of_orbit_succ (h : orbit f s (n + 1) = some t) :
    ∃ u, orbit f s n = some u ∧ f u = some t :=
  Option.bind_eq_some_iff.mp h

/-- No step follows the last one. -/
theorem orbit_eq_none_of_le (hmn : m ≤ n) (h : orbit f s m = none) : orbit f s n = none := by
  induction n, hmn using Nat.le_induction with
  | base => exact h
  | succ n _ ih => rw [orbit_succ, ih, Option.bind_none]

/-- Every step before one that is taken is taken. -/
theorem exists_of_le (hmn : m ≤ n) (h : orbit f s n = some t) : ∃ u, orbit f s m = some u := by
  refine Option.ne_none_iff_exists'.mp fun hnone => ?_
  rw [orbit_eq_none_of_le hmn hnone] at h
  cases h

/-! ### What steps keep -/

theorem invariant {P : σ → Prop} (start : P s) (step : ∀ t u, P t → f t = some u → P u)
    (h : orbit f s n = some t) : P t := by
  induction n generalizing t with
  | zero => exact Option.some.inj h ▸ start
  | succ n ih =>
    obtain ⟨u, hu, hstep⟩ := exists_of_orbit_succ h
    exact step u t (ih hu) hstep

/-- **A height that every step raises** is raised by as much as there are steps. -/
theorem climb (height : σ → ℤ)
    (step : ∀ n t u, orbit f s n = some t → f t = some u → height t < height u)
    (h : orbit f s n = some t) : height s + n ≤ height t := by
  induction n generalizing t with
  | zero =>
    obtain rfl := Option.some.inj h
    exact (Int.add_zero (height s)).le
  | succ n ih =>
    obtain ⟨u, hu, hstep⟩ := exists_of_orbit_succ h
    have hlow := ih hu
    have hup := step n u t hu hstep
    push_cast
    omega

/-! ### Going round -/

/-- A point that leads back to itself is come back to again and again. -/
theorem orbit_mul (h : orbit f t m = some t) (n : ℕ) : orbit f t (m * n) = some t := by
  induction n with
  | zero => rfl
  | succ n ih => rw [Nat.mul_succ, orbit_add ih, h]

theorem not_ends_of_return (hm : 0 < m) (h : orbit f t m = some t) : ¬ Ends f t := by
  rintro ⟨n, hn⟩
  have hall := orbit_mul h n
  rw [orbit_eq_none_of_le (Nat.le_mul_of_pos_left n hm) hn] at hall
  cases hall

theorem ends_of_orbit (h : orbit f s m = some t) (hends : Ends f s) : Ends f t := by
  obtain ⟨n, hn⟩ := hends
  exact ⟨n, (orbit_add h n).symm.trans (orbit_eq_none_of_le (Nat.le_add_left n m) hn)⟩

/-- **Steps that end do not come back.** -/
theorem Ends.distinct (h : Ends f s) : Distinct f s := by
  have hlt : ∀ m n t, m < n → orbit f s m = some t → orbit f s n ≠ some t := by
    intro m n t hmn hm hn
    obtain ⟨k, rfl⟩ := Nat.exists_eq_add_of_lt hmn
    rw [Nat.add_assoc, orbit_add hm] at hn
    exact not_ends_of_return k.succ_pos hn (ends_of_orbit hm h)
  intro m n t hm hn
  rcases Nat.lt_trichotomy m n with hmn | hmn | hmn
  · exact absurd hn (hlt m n t hmn hm)
  · exact hmn
  · exact absurd hm (hlt n m t hmn hn)

/-- **Steps that do not come back** are as many as the points they are taken from, at most. -/
theorem Distinct.le_card (h : Distinct f s) {S : Finset σ}
    (hS : ∀ n t u, orbit f s n = some t → f t = some u → t ∈ S) (hn : orbit f s n = some t) :
    n ≤ S.card := by
  have hpoint : ∀ k : Fin n, ∃ u, orbit f s k = some u ∧ u ∈ S := by
    intro k
    obtain ⟨v, hv⟩ := exists_of_le (Nat.succ_le_of_lt k.isLt) hn
    obtain ⟨u, hu, hstep⟩ := exists_of_orbit_succ hv
    exact ⟨u, hu, hS k u v hu hstep⟩
  choose point hpoint hmem using hpoint
  have hinj : Function.Injective point := fun j k hjk =>
    Fin.ext (h j k (point j) (hpoint j) (hjk ▸ hpoint k))
  calc n = (Finset.univ.map ⟨point, hinj⟩).card := by simp
    _ ≤ S.card := Finset.card_le_card fun u hu => by
      obtain ⟨k, -, rfl⟩ := Finset.mem_map.mp hu
      exact hmem k

/-- Where there are finitely many points to step from, steps that do not come back end. -/
theorem Distinct.ends (h : Distinct f s) {S : Finset σ}
    (hS : ∀ n t u, orbit f s n = some t → f t = some u → t ∈ S) : Ends f s := by
  refine ⟨S.card + 1, Option.eq_none_iff_forall_ne_some.mpr fun t ht => ?_⟩
  have hle := h.le_card hS ht
  omega

end Orbit
