import A1000.Power.Bounds

/-!
# Recovering from a refused write

The cached bounds are set whether or not the kernel has taken the value, and only the cache decides
what is written later. So a refused write is made good by a later operation exactly when that
operation finds something else in the cache than what it wants; as long as the cache holds the
wanted value, the kernel keeps the old one.

The run starts from the static initializer, with any window in the kernel, and operations may come
before `init`.

## Main definitions

* `Power.Applies` — an operation that comes to `apply_locked`
* `Power.due` — how many writes an operation is going to attempt
* `Power.NotStale` — every bound the operation leaves alone is the wanted one in the kernel

## Main results

* `Power.applyLocked_writes` — one call of `apply_locked`, whatever the kernel answers
* `Power.recovers_step` — one operation
* `Power.recovers_iff` — every run
-/

namespace A1000

namespace Power

open StepSystem

/-! ### One conditional write -/

/-- What a conditional write of `v` on `node` does, `due` being its condition: one more attempt,
accepted if the oracle says so, and the kernel takes the value if it is. -/
structure Attempted (ok : ℕ → Bool) (due : Prop) [Decidable due] (node : Node) (v : Int)
    (s : State) (r : State × List Write) : Prop where
  attempts : r.1.attempts = s.attempts + if due then 1 else 0
  accepted : (∀ w ∈ r.2, w.accepted = true) ↔ (due → ok s.attempts = true)
  kernel : (∀ w ∈ r.2, w.accepted = true) →
    r.1.kernel = if due then s.kernel.set v node else s.kernel

theorem Attempted.congr {ok : ℕ → Bool} {due due' : Prop} [Decidable due] [Decidable due']
    {node : Node} {v : Int} {s : State} {r : State × List Write} (hdue : due ↔ due')
    (h : Attempted ok due node v s r) : Attempted ok due' node v s r where
  attempts := by simp only [h.attempts, hdue]
  accepted := by simp only [h.accepted, hdue]
  kernel hw := by simp only [h.kernel hw, hdue]

theorem attempted_growMax (ok : ℕ → Bool) (hi : Int) (s : State) :
    Attempted ok (hi > s.pwr.curMax) .cpufreqMax hi s (growMax ok hi s) := by
  rw [growMax]
  split
  · rename_i h
    exact ⟨by simp [writeMax, sysfsWriteInt, h], by simp [writeMax, sysfsWriteInt, h],
      by simp +contextual [writeMax, sysfsWriteInt, h]⟩
  · rename_i h
    exact ⟨by simp [h], by simp [h], by simp [h]⟩

theorem attempted_moveMin (ok : ℕ → Bool) (lo : Int) (s : State) :
    Attempted ok (lo ≠ s.pwr.curMin) .cpufreqMin lo s (moveMin ok lo s) := by
  rw [moveMin]
  split
  · rename_i h
    exact ⟨by simp [writeMin, sysfsWriteInt, h], by simp [writeMin, sysfsWriteInt, h],
      by simp +contextual [writeMin, sysfsWriteInt, h]⟩
  · rename_i h
    exact ⟨by simp [h], by simp [h], by simp [h]⟩

theorem attempted_shrinkMax (ok : ℕ → Bool) (hi : Int) (s : State) :
    Attempted ok (hi < s.pwr.curMax) .cpufreqMax hi s (shrinkMax ok hi s) := by
  rw [shrinkMax]
  split
  · rename_i h
    exact ⟨by simp [writeMax, sysfsWriteInt, h], by simp [writeMax, sysfsWriteInt, h],
      by simp +contextual [writeMax, sysfsWriteInt, h]⟩
  · rename_i h
    exact ⟨by simp [h], by simp [h], by simp [h]⟩

/-! ### One call of `apply_locked` -/

/-- How many of the two bounds differ from their cached values. -/
def outdated (p : A1000Power) : ℕ :=
  (if p.curMax = (wanted p).scalingMax then 0 else 1) +
    (if p.curMin = (wanted p).scalingMin then 0 else 1)

theorem forall_lt_two {P : ℕ → Prop} : (∀ j < 1 + 1, P j) ↔ P 0 ∧ P 1 := by
  constructor
  · exact fun h => ⟨h 0 (by decide), h 1 (by decide)⟩
  · rintro ⟨h0, h1⟩ j hj
    obtain rfl | rfl : j = 0 ∨ j = 1 := by omega
    · exact h0
    · exact h1

/-- The window `k` with the wanted value in every bound that differs from its cached value. -/
def rewritten (p : A1000Power) (k : Window) : Window where
  scalingMin := if p.curMin = (wanted p).scalingMin then k.scalingMin else (wanted p).scalingMin
  scalingMax := if p.curMax = (wanted p).scalingMax then k.scalingMax else (wanted p).scalingMax

/-- **One call of `apply_locked`.** It attempts one write for each bound that differs from its
cached value, and when the kernel takes them all, these bounds, and only these, are the wanted ones
afterwards. -/
theorem applyLocked_writes (ok : ℕ → Bool) (s : State) :
    ((∀ w ∈ (applyLocked ok s).2, w.accepted = true) ↔
        ∀ j < outdated s.pwr, ok (s.attempts + j) = true) ∧
      ((∀ w ∈ (applyLocked ok s).2, w.accepted = true) →
        (applyLocked ok s).1.kernel = rewritten s.pwr s.kernel) := by
  set p := s.pwr with hp
  set r₁ := growMax ok (wantMax p) s with hr₁
  set r₂ := moveMin ok (wantMin p) r₁.1 with hr₂
  set r₃ := shrinkMax ok (wantMax p) r₂.1 with hr₃
  have happly : applyLocked ok s = (r₃.1, r₁.2 ++ r₂.2 ++ r₃.2) := rfl
  have a₁ : Attempted ok (wantMax p > p.curMax) .cpufreqMax (wantMax p) s r₁ :=
    attempted_growMax ok _ s
  have a₂ : Attempted ok (wantMin p ≠ p.curMin) .cpufreqMin (wantMin p) r₁.1 r₂ := by
    have h := attempted_moveMin ok (wantMin p) r₁.1
    rwa [show r₁.1.pwr.curMin = p.curMin by rw [hr₁, growMax_pwr]] at h
  have hmax : r₂.1.pwr.curMax = max p.curMax (wantMax p) := by
    rw [hr₂, moveMin_pwr, hr₁, growMax_pwr]
  have a₃ : Attempted ok (wantMax p < p.curMax) .cpufreqMax (wantMax p) r₂.1 r₃ := by
    refine (attempted_shrinkMax ok (wantMax p) r₂.1).congr ?_
    rw [hmax, lt_max_iff]
    omega
  have hacc : (∀ w ∈ r₁.2 ++ r₂.2 ++ r₃.2, w.accepted = true) ↔
      ((wantMax p > p.curMax → ok s.attempts = true) ∧
        (wantMin p ≠ p.curMin → ok r₁.1.attempts = true)) ∧
        (wantMax p < p.curMax → ok r₂.1.attempts = true) := by
    simp only [List.mem_append, or_imp, forall_and, a₁.accepted, a₂.accepted, a₃.accepted]
  have hker : (∀ w ∈ r₁.2 ++ r₂.2 ++ r₃.2, w.accepted = true) →
      r₃.1.kernel = rewritten p s.kernel := by
    simp only [List.mem_append, or_imp, forall_and]
    rintro ⟨⟨h₁, h₂⟩, h₃⟩
    rw [a₃.kernel h₃, a₂.kernel h₂, a₁.kernel h₁, rewritten, ← wantMax_eq, ← wantMin_eq]
    rcases eq_or_ne p.curMin (wantMin p) with hl | hl <;>
      rcases lt_trichotomy p.curMax (wantMax p) with hm | hm | hm
    · simp [hl, hm, hm.ne, hm.not_gt, Window.set]
    · simp [hl, hm]
    · simp [hl, hm, hm.ne', hm.not_gt, Window.set]
    · simp [hl, hl.symm, hm, hm.ne, hm.not_gt, Window.set]
    · simp [hl, hl.symm, hm, Window.set]
    · simp [hl, hl.symm, hm, hm.ne', hm.not_gt, Window.set]
  rw [happly]
  refine ⟨?_, hker⟩
  rw [hacc, a₂.attempts, a₁.attempts, outdated, ← wantMax_eq, ← wantMin_eq]
  rcases eq_or_ne p.curMin (wantMin p) with hl | hl <;>
    rcases lt_trichotomy p.curMax (wantMax p) with hm | hm | hm
  · simp [hl, hm, hm.ne, hm.not_gt]
  · simp [hl, hm]
  · simp [hl, hm, hm.ne', hm.not_gt]
  · rw [if_neg hm.ne, if_neg hl, forall_lt_two]
    simp [hl.symm, hm, hm.not_gt]
  · simp [hl, hl.symm, hm]
  · rw [if_neg hm.ne', if_neg hl, forall_lt_two]
    simp [hl.symm, hm, hm.not_gt]

/-- A bound that is cached as it is wanted has that value in the kernel. -/
def Genuine (p : A1000Power) (k : Window) : Prop :=
  (p.curMax = (wanted p).scalingMax → k.scalingMax = p.curMax) ∧
    (p.curMin = (wanted p).scalingMin → k.scalingMin = p.curMin)

instance (p : A1000Power) (k : Window) : Decidable (Genuine p k) :=
  inferInstanceAs (Decidable (_ ∧ _))

theorem Window.eq_iff {a b : Window} :
    a = b ↔ a.scalingMin = b.scalingMin ∧ a.scalingMax = b.scalingMax := by
  cases a
  cases b
  rw [Window.mk.injEq]

/-- The rewritten window is the wanted one unless a bound that is left alone differs. -/
theorem rewritten_eq_wanted_iff {p : A1000Power} {k : Window} :
    rewritten p k = wanted p ↔ Genuine p k := by
  rw [Genuine, and_comm, Window.eq_iff]
  refine and_congr ?_ ?_
  · by_cases h : p.curMin = (wanted p).scalingMin <;> simp [rewritten, h]
  · by_cases h : p.curMax = (wanted p).scalingMax <;> simp [rewritten, h]

/-! ### One operation -/

/-- The operation comes to `apply_locked`. -/
def applies (p : A1000Power) (op : Op) (now : Int) : Bool :=
  match op with
  | .init => false
  | .setInteractive _ => true
  | .powerHint .interaction _ => true
  | .powerHint .launch _ => true
  | .powerHint .lowPower _ => true
  | .powerHint .vsync _ => false
  | .powerHint (.other _) _ => false
  | .boostThread => p.boostFreq ≠ 0 ∧ now ≥ p.boostUntilMs

/-- The operation is the `init` that writes. -/
def firstInit (p : A1000Power) (op : Op) : Bool := op = .init ∧ ¬ p.inited

/-- How many writes the operation is going to attempt. -/
def due (s : State) (i : Op × Int) : ℕ :=
  if firstInit s.pwr i.1 then 2
  else if applies s.pwr i.1 i.2 then outdated (s.pwr.inputs i.1 i.2)
  else 0

/-- **When nothing stale is left behind.** A bound that `apply_locked` finds cached as it wants it
has that value in the kernel; an operation that writes nothing finds the wanted window in the
kernel; and `init`, which writes the default window whatever the inputs are, finds inputs that ask
for it. -/
def NotStale (s : State) (i : Op × Int) : Prop :=
  if firstInit s.pwr i.1 then wanted s.pwr = ⟨freqMin, freqMax⟩
  else if applies s.pwr i.1 i.2 then Genuine (s.pwr.inputs i.1 i.2) s.kernel
  else s.kernel = wanted s.pwr

instance (s : State) (i : Op × Int) : Decidable (NotStale s i) :=
  inferInstanceAs (Decidable (if firstInit s.pwr i.1 then wanted s.pwr = ⟨freqMin, freqMax⟩
    else if applies s.pwr i.1 i.2 then Genuine (s.pwr.inputs i.1 i.2) s.kernel
    else s.kernel = wanted s.pwr))

/-- One of the writes that are due is going to be refused, or nothing stale is left behind. -/
def Recovers (ok : ℕ → Bool) (s : State) (i : Op × Int) : Prop :=
  (∀ j < due s i, ok (s.attempts + j) = true) → NotStale s i

instance (ok : ℕ → Bool) (s : State) (i : Op × Int) : Decidable (Recovers ok s i) :=
  inferInstanceAs (Decidable ((∀ j < due s i, ok (s.attempts + j) = true) → NotStale s i))

/-- The operation sets its inputs and calls `apply_locked`. -/
theorem runOp_applies {ok : ℕ → Bool} {op : Op} {now : Int} {s : State}
    (h : applies s.pwr op now = true) :
    runOp ok op now s = applyLocked ok { s with pwr := s.pwr.inputs op now } := by
  cases op with
  | init => cases h
  | setInteractive on => cases on <;> rfl
  | powerHint hint data =>
    cases hint with
    | interaction =>
      simp only [runOp, a1000PowerHint, boost, A1000Power.inputs, A1000Power.merge]
      split_ifs <;> rfl
    | launch =>
      simp only [runOp, a1000PowerHint, boost, A1000Power.inputs, A1000Power.merge]
      split_ifs <;> rfl
    | lowPower => rfl
    | vsync => cases h
    | other hint => cases h
  | boostThread =>
    obtain ⟨hf, hd⟩ := of_decide_eq_true h
    simp [runOp, boostThreadFn, A1000Power.inputs, A1000Power.expire, hf, hd]

/-- The operation does nothing. -/
theorem runOp_idle {ok : ℕ → Bool} {op : Op} {now : Int} {s : State}
    (hf : firstInit s.pwr op = false) (h : applies s.pwr op now = false) :
    runOp ok op now s = (s, []) := by
  cases op with
  | init =>
    have hi : s.pwr.inited = true := by simpa [firstInit] using hf
    simp [runOp, a1000PowerInit, hi]
  | setInteractive on => cases h
  | powerHint hint data =>
    cases hint with
    | interaction => cases h
    | launch => cases h
    | lowPower => cases h
    | vsync => rfl
    | other hint => rfl
  | boostThread =>
    have hd : s.pwr.boostFreq ≠ 0 → ¬ now ≥ s.pwr.boostUntilMs := by simpa [applies] using h
    by_cases hz : s.pwr.boostFreq = 0
    · simp [runOp, boostThreadFn, hz]
    · simp [runOp, boostThreadFn, hz, hd hz]

/-- What is promised of an operation that has made the writes `o.1` and left the state `o.2`. -/
def Recovered (o : List Write × State) : Prop :=
  (∀ w ∈ o.1, w.accepted = true) → o.2.kernel = wanted o.2.pwr

/-- The first `init` attempts both writes, with the default values. -/
theorem firstInit_writes (ok : ℕ → Bool) {s : State} (hi : s.pwr.inited = false) :
    ((∀ w ∈ (a1000PowerInit ok s).2, w.accepted = true) ↔ ∀ j < 2, ok (s.attempts + j) = true) ∧
      ((∀ w ∈ (a1000PowerInit ok s).2, w.accepted = true) →
        (a1000PowerInit ok s).1.kernel = ⟨freqMin, freqMax⟩) ∧
      wanted (a1000PowerInit ok s).1.pwr = wanted s.pwr := by
  refine ⟨?_, ?_, ?_⟩
  · rw [forall_lt_two]
    simp [a1000PowerInit, sysfsWriteInt, hi]
  · simp only [a1000PowerInit, sysfsWriteInt, hi, Bool.not_false, ↓reduceIte]
    intro hw
    have hmax : ok s.attempts = true := hw _ List.mem_cons_self
    have hmin : ok (s.attempts + 1) = true := hw _ (List.mem_cons_of_mem _ List.mem_cons_self)
    simp [hmax, hmin, Window.set]
  · simp only [a1000PowerInit, sysfsWriteInt, hi, Bool.not_false, ↓reduceIte]
    exact wanted_congr rfl rfl rfl

/-- **One operation.** -/
theorem recovered_iff (ok : ℕ → Bool) (op : Op) (now : Int) (s : State) :
    Recovered ((runOp ok op now s).2, (runOp ok op now s).1) ↔ Recovers ok s (op, now) := by
  rw [Recovers, due, NotStale]
  cases hf : firstInit s.pwr op with
  | true =>
    obtain ⟨rfl, hi⟩ : op = .init ∧ s.pwr.inited = false := by simpa [firstInit] using hf
    obtain ⟨hacc, hker, hw⟩ := firstInit_writes ok hi
    simp only [Recovered, runOp, hacc, ↓reduceIte]
    refine forall_congr' fun hok => ?_
    rw [hker (hacc.mpr hok), hw, eq_comm]
  | false =>
    cases ha : applies s.pwr op now with
    | false =>
      rw [runOp_idle hf ha]
      simp [Recovered]
    | true =>
      obtain ⟨hacc, hker⟩ := applyLocked_writes ok { s with pwr := s.pwr.inputs op now }
      have hw : wanted (applyLocked ok { s with pwr := s.pwr.inputs op now }).1.pwr =
          wanted (s.pwr.inputs op now) := by
        rw [applyLocked_pwr]
        exact wanted_congr rfl rfl rfl
      rw [runOp_applies ha, Recovered, hacc]
      simp only [Bool.false_eq_true, ↓reduceIte]
      refine forall_congr' fun hok => ?_
      rw [hker (hacc.mpr hok), hw, rewritten_eq_wanted_iff]

/-! ### Every run -/

/-- An operation, with the writes it has made and the state it has left. -/
def observed (ok : ℕ → Bool) (s : State) (i : Op × Int) :
    Option (State × (List Write × State)) :=
  (step ok s i).map fun r => (r.1, (r.2, r.1))

/-- The module before anything has happened, over a kernel that holds `k₀`. -/
def loaded (k₀ : Window) : State := ⟨gPwr, k₀, 0⟩

/-- **Recovery.** Whatever operations come in whatever order and at whatever times, and whichever
writes the kernel refuses: every operation whose attempted writes are all accepted leaves the wanted
window in the kernel, exactly when no such operation finds a stale bound that the cache hides. -/
theorem recovers_iff {ok : ℕ → Bool} {k₀ : Window}
    {tr : List ((Op × Int) × (List Write × State))} {s : State}
    (h : Run (observed ok) (loaded k₀) tr s) :
    Always (fun _ _ o => Recovered o) tr ↔
      RunWhere (observed ok) (Recovers ok) (loaded k₀) tr s := by
  refine h.always_iff ?_
  rintro tr s ⟨op, now⟩ t o - hstep
  simp only [observed, step, Option.map_some, Option.some.injEq, Prod.mk.injEq] at hstep
  rw [← hstep.2]
  exact recovered_iff ok op now s

/-- The kernel refuses the third write it sees. -/
def thirdRefused : ℕ → Bool := fun n => n ≠ 2

/-- The maximum is refused while the screen goes off, and the screen goes on again: nothing stale is
ever left behind. -/
theorem recovers_iff_on_again :
    ∃ tr s, Run (observed thirdRefused) (loaded ⟨300000, 900000⟩) tr s ∧
      tr.map Prod.fst = [(.init, 0), (.setInteractive false, 10), (.setInteractive true, 20)] ∧
      Always (fun _ _ o => Recovered o) tr := by
  have hrun : RunWhere (observed thirdRefused) (Recovers thirdRefused) (loaded ⟨300000, 900000⟩)
      _ _ := run_of_exec <|
    show exec (observed thirdRefused) (Recovers thirdRefused) _
      [(.init, 0), (.setInteractive false, 10), (.setInteractive true, 20)] = some (_, _) from rfl
  exact ⟨_, _, hrun.run, rfl, (recovers_iff hrun.run).mpr hrun⟩

/-- The maximum is refused while the screen goes off. A launch hint then writes the minimum, which
the kernel takes; the maximum is cached as wanted and stays at 1300000. -/
theorem recovers_not_always :
    ¬ ∀ (ok : ℕ → Bool) (k₀ : Window) (tr : List ((Op × Int) × (List Write × State))) (s : State),
      Run (observed ok) (loaded k₀) tr s → Always (fun _ _ o => Recovered o) tr := by
  intro hall
  have hrun : Run (observed thirdRefused) (loaded ⟨300000, 900000⟩) _ _ := run_of_exec <|
    show exec (observed thirdRefused) (fun _ _ => True) _
      [(.init, 0), (.setInteractive false, 10), (.powerHint .launch false, 20)] = some (_, _)
      from rfl
  have hkernel := hall _ _ _ _ hrun [_, _] _ _ [] rfl (by decide)
  revert hkernel
  decide

end Power

end A1000
