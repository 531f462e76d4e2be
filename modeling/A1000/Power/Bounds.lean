import A1000.Power.Hal
import Mathlib.Order.MinMax
import Mathlib.Tactic.SplitIfs

/-!
# The frequency window follows its inputs

What the module promises about the two sysfs nodes: with every write accepted, the kernel's window
is the wanted one after every operation, no intermediate write ever inverts it, and nothing is
written without need.

What is wanted is read off the operations that have come in, not off the state of the module:
`asked` goes through the history and keeps the screen, the power saving and the boost.

The argument has three parts. `applyLocked_pwr` and `applyLocked_accepted` say what one call of
`apply_locked` does, whatever the three inputs are; `runOp_cases` says that every operation after
`init` is one such call, or nothing; `Heeds.inputs` says that the inputs it sets are those of the
history. The invariant then goes through one step, and so through every run.

## Main definitions

* `Power.asked`, `Power.Asked.window` — what the operations so far ask for
* `Power.wanted` — the window the inputs of the module ask for
* `Power.Cached`, `Power.Agrees` — the cached window is the wanted one, the kernel holds it

## Main results

* `Power.applyLocked_accepted` — one call of `apply_locked`, all writes accepted
* `Power.bounds_track_inputs` — every run, every interleaving
-/

namespace A1000

namespace Power

open StepSystem

/-! ### The wanted window -/

/-- The window the inputs ask for, in the words of the header comment: full speed unless the
screen is off or power is being saved, the boost as the lower bound while there is one, and a lower
bound never above the upper one. -/
def wanted (p : A1000Power) : Window :=
  let hi : Int := if p.screenOn ∧ ¬ p.lowPower then 1300000 else 1000000
  ⟨min hi (if p.boostFreq > 0 then p.boostFreq else 768000), hi⟩

theorem wantMax_eq (p : A1000Power) : wantMax p = (wanted p).scalingMax := by
  cases hs : p.screenOn <;> cases hl : p.lowPower <;>
    simp [wantMax, wanted, hs, hl, freqMax, freqMaxScreenOff, freqMaxLowPower]

theorem wantMin_eq (p : A1000Power) : wantMin p = (wanted p).scalingMin := by
  have hmax := wantMax_eq p
  simp only [wantMin, wanted, freqMin] at hmax ⊢
  rw [hmax]
  omega

theorem wanted_ordered (p : A1000Power) : (wanted p).scalingMin ≤ (wanted p).scalingMax :=
  min_le_left _ _

/-! ### What has been asked for -/

/-- The screen, the power saving, and the boost with its end; no boost has the frequency 0. -/
structure Asked where
  screenOff : Bool
  lowPower : Bool
  boostFreq : Int
  boostUntil : Int
  deriving DecidableEq, Repr

/-- A boost that is asked for: the stronger one wins, and the longer one. -/
def Asked.boosted (a : Asked) (freq until_ : Int) : Asked :=
  { a with boostFreq := max a.boostFreq freq, boostUntil := max a.boostUntil until_ }

/-- What is asked for after one more operation. A boost ends when the screen goes off, and when the
thread looks at it after its end. -/
def Asked.after (a : Asked) : Op × Int → Asked
  | (.init, _) => a
  | (.setInteractive true, _) => { a with screenOff := false }
  | (.setInteractive false, _) => { a with screenOff := true, boostFreq := 0, boostUntil := 0 }
  | (.powerHint .interaction _, now) => a.boosted 1000000 (now + 800)
  | (.powerHint .launch _, now) => a.boosted 1200000 (now + 2000)
  | (.powerHint .lowPower data, _) => { a with lowPower := data }
  | (.powerHint .vsync _, _) => a
  | (.powerHint (.other _) _, _) => a
  | (.boostThread, now) => if a.boostUntil ≤ now then { a with boostFreq := 0 } else a

/-- What the operations of a history ask for. -/
def asked (tr : List ((Op × Int) × List Write)) : Asked :=
  tr.foldl (fun a e => a.after e.1) ⟨false, false, 0, 0⟩

@[simp] theorem asked_snoc (tr : List ((Op × Int) × List Write)) (i : Op × Int)
    (ws : List Write) : asked (tr ++ [(i, ws)]) = (asked tr).after i := by
  simp [asked]

/-- The window that is asked for: the lower maximum when the screen is off or power is saved, and
the boost as the minimum while there is one, cut at the maximum. -/
def Asked.window (a : Asked) : Window :=
  let hi : Int := if a.screenOff ∨ a.lowPower then 1000000 else 1300000
  ⟨min hi (if a.boostFreq > 0 then a.boostFreq else 768000), hi⟩

/-- The inputs of the module are what has been asked for. -/
structure Heeds (p : A1000Power) (a : Asked) : Prop where
  screen : p.screenOn = !a.screenOff
  lowPower : p.lowPower = a.lowPower
  boostFreq : p.boostFreq = a.boostFreq
  boostUntil : p.boostUntilMs = a.boostUntil

theorem Heeds.wanted {p : A1000Power} {a : Asked} (h : Heeds p a) :
    Power.wanted p = a.window := by
  cases hs : a.screenOff <;> cases hl : a.lowPower <;>
    simp [Power.wanted, Asked.window, h.screen, h.lowPower, h.boostFreq, hs, hl]

theorem Heeds.merge {p : A1000Power} {a : Asked} (h : Heeds p a) (freq until_ : Int) :
    Heeds (p.merge freq until_) (a.boosted freq until_) where
  screen := h.screen
  lowPower := h.lowPower
  boostFreq := by
    simp only [A1000Power.merge, Asked.boosted, h.boostFreq]
    omega
  boostUntil := by
    simp only [A1000Power.merge, Asked.boosted, h.boostUntil]
    omega

theorem Heeds.expire {p : A1000Power} {a : Asked} (h : Heeds p a) (now : Int) :
    Heeds (p.expire now) (a.after (.boostThread, now)) := by
  rw [A1000Power.expire, Asked.after, h.boostUntil, h.boostFreq]
  by_cases hend : a.boostUntil ≤ now
  · rw [if_pos hend]
    by_cases hboost : a.boostFreq = 0
    · rw [if_neg (fun hand => hand.1 hboost)]
      exact ⟨h.screen, h.lowPower, h.boostFreq.trans hboost, h.boostUntil⟩
    · rw [if_pos ⟨hboost, hend⟩]
      exact ⟨h.screen, h.lowPower, rfl, rfl⟩
  · rw [if_neg hend, if_neg (fun hand => hend hand.2)]
    exact h

/-- An operation changes the inputs as it changes what is asked for. -/
theorem Heeds.inputs {p : A1000Power} {a : Asked} (h : Heeds p a) (op : Op) (now : Int) :
    Heeds (p.inputs op now) (a.after (op, now)) := by
  cases op with
  | init => exact ⟨h.screen, h.lowPower, h.boostFreq, h.boostUntil⟩
  | setInteractive on =>
    cases on with
    | true => exact ⟨rfl, h.lowPower, h.boostFreq, h.boostUntil⟩
    | false => exact ⟨rfl, h.lowPower, rfl, rfl⟩
  | powerHint hint data =>
    cases hint with
    | interaction => exact h.merge 1000000 (now + 800)
    | launch => exact h.merge 1200000 (now + 2000)
    | lowPower => exact ⟨h.screen, rfl, h.boostFreq, h.boostUntil⟩
    | vsync => exact h
    | other hint => exact h
  | boostThread => exact h.expire now

/-- The wanted window reads the three inputs and nothing else. -/
theorem wanted_congr {p q : A1000Power} (hs : p.screenOn = q.screenOn)
    (hl : p.lowPower = q.lowPower) (hb : p.boostFreq = q.boostFreq) : wanted p = wanted q := by
  simp only [wanted, hs, hl, hb]

/-! ### The three conditional writes

Each one sets a cached bound, keeps the kernel in agreement with the cache when its write is
accepted, and records the window it leaves. -/

/-- The kernel holds the window the module believes it holds. -/
def Agrees (s : State) : Prop := s.kernel = ⟨s.pwr.curMin, s.pwr.curMax⟩

/-- The oracle under which every write is accepted. -/
def allAccepted : ℕ → Bool := fun _ => true

/-- What a conditional write on `node` leaves: agreement is kept, and all it may have recorded is
one write on that node with the window it left. -/
structure Kept (node : Node) (s : State) (r : State × List Write) : Prop where
  agrees : Agrees s → Agrees r.1
  window : ∀ w ∈ r.2, w.window = r.1.kernel
  nodes : r.2.map Write.node = [] ∨ r.2.map Write.node = [node]

theorem growMax_pwr (ok : ℕ → Bool) (hi : Int) (s : State) :
    (growMax ok hi s).1.pwr = { s.pwr with curMax := max s.pwr.curMax hi } := by
  rw [growMax]
  split
  · rename_i h
    rw [max_eq_right (le_of_lt h)]
    rfl
  · rename_i h
    rw [max_eq_left (not_lt.mp h)]

theorem moveMin_pwr (ok : ℕ → Bool) (lo : Int) (s : State) :
    (moveMin ok lo s).1.pwr = { s.pwr with curMin := lo } := by
  rw [moveMin]
  split
  · rfl
  · rename_i h
    rw [not_not.mp h]

theorem shrinkMax_pwr (ok : ℕ → Bool) (hi : Int) (s : State) :
    (shrinkMax ok hi s).1.pwr = { s.pwr with curMax := min s.pwr.curMax hi } := by
  rw [shrinkMax]
  split
  · rename_i h
    rw [min_eq_right (le_of_lt h)]
    rfl
  · rename_i h
    rw [min_eq_left (not_lt.mp h)]

/-- Nothing done keeps everything. -/
theorem Kept.refl (node : Node) (s : State) : Kept node s (s, []) where
  agrees := id
  window := by simp
  nodes := .inl rfl

theorem kept_writeMax (v : Int) (s : State) : Kept .cpufreqMax s (writeMax allAccepted v s) where
  agrees h := by
    rw [Agrees] at h
    simp [Agrees, writeMax, sysfsWriteInt, allAccepted, Window.set, h]
  window := by simp [writeMax, sysfsWriteInt]
  nodes := .inr rfl

theorem kept_writeMin (v : Int) (s : State) : Kept .cpufreqMin s (writeMin allAccepted v s) where
  agrees h := by
    rw [Agrees] at h
    simp [Agrees, writeMin, sysfsWriteInt, allAccepted, Window.set, h]
  window := by simp [writeMin, sysfsWriteInt]
  nodes := .inr rfl

theorem kept_growMax (hi : Int) (s : State) : Kept .cpufreqMax s (growMax allAccepted hi s) := by
  rw [growMax]
  split
  · exact kept_writeMax hi s
  · exact .refl _ s

theorem kept_moveMin (lo : Int) (s : State) : Kept .cpufreqMin s (moveMin allAccepted lo s) := by
  rw [moveMin]
  split
  · exact kept_writeMin lo s
  · exact .refl _ s

theorem kept_shrinkMax (hi : Int) (s : State) :
    Kept .cpufreqMax s (shrinkMax allAccepted hi s) := by
  rw [shrinkMax]
  split
  · exact kept_writeMax hi s
  · exact .refl _ s

/-- Every window a conditional write records is ordered if the cache is ordered after it. -/
theorem Kept.ordered {node : Node} {s : State} {r : State × List Write} (h : Kept node s r)
    (ha : Agrees s) (hord : r.1.pwr.curMin ≤ r.1.pwr.curMax) :
    ∀ w ∈ r.2, w.window.scalingMin ≤ w.window.scalingMax := by
  intro w hw
  rw [h.window w hw, h.agrees ha]
  exact hord

/-! ### One call of `apply_locked` -/

/-- Both cached bounds are set to what is wanted, whatever the kernel answers. -/
theorem applyLocked_pwr (ok : ℕ → Bool) (s : State) :
    (applyLocked ok s).1.pwr =
      { s.pwr with curMin := (wanted s.pwr).scalingMin, curMax := (wanted s.pwr).scalingMax } := by
  simp only [applyLocked, shrinkMax_pwr, moveMin_pwr, growMax_pwr, wantMax_eq, wantMin_eq,
    A1000Power.mk.injEq, true_and, and_true]
  omega

/-- A call that finds the wanted window cached writes nothing. -/
theorem applyLocked_idle {ok : ℕ → Bool} {s : State}
    (h : (⟨s.pwr.curMin, s.pwr.curMax⟩ : Window) = wanted s.pwr) : (applyLocked ok s).2 = [] := by
  have hmin : s.pwr.curMin = (wanted s.pwr).scalingMin := congrArg Window.scalingMin h
  have hmax : s.pwr.curMax = (wanted s.pwr).scalingMax := congrArg Window.scalingMax h
  simp [applyLocked, growMax, moveMin, shrinkMax, wantMax_eq, wantMin_eq, hmin, hmax]

/-- A maximum that has just grown does not shrink: the first and the third write exclude each
other. -/
theorem growMax_or_shrinkMax (ok : ℕ → Bool) (hi lo : Int) (s : State) :
    (growMax ok hi s).2 = [] ∨ (shrinkMax ok hi (moveMin ok lo (growMax ok hi s).1).1).2 = [] := by
  by_cases h : hi > s.pwr.curMax
  · right
    have hmax : (moveMin ok lo (growMax ok hi s).1).1.pwr.curMax = max s.pwr.curMax hi := by
      rw [moveMin_pwr, growMax_pwr]
    simp [shrinkMax, hmax, le_of_lt h]
  · left
    simp [growMax, h]

/-- **One call with every write accepted.** If the kernel holds the cached window and that window
is not inverted, the kernel ends with the wanted window, every window on the way is ordered, and no
node is written twice.

The order of the writes is what the second part rests on: a maximum that grows is written first and
one that shrinks last, so the minimum always moves below both the old and the new maximum. -/
theorem applyLocked_accepted {s : State} (ha : Agrees s) (hord : s.pwr.curMin ≤ s.pwr.curMax) :
    Agrees (applyLocked allAccepted s).1 ∧
      (∀ w ∈ (applyLocked allAccepted s).2, w.window.scalingMin ≤ w.window.scalingMax) ∧
      ((applyLocked allAccepted s).2.map Write.node).Nodup := by
  set r₁ := growMax allAccepted (wantMax s.pwr) s with hr₁
  set r₂ := moveMin allAccepted (wantMin s.pwr) r₁.1 with hr₂
  set r₃ := shrinkMax allAccepted (wantMax s.pwr) r₂.1 with hr₃
  have happly : applyLocked allAccepted s = (r₃.1, r₁.2 ++ r₂.2 ++ r₃.2) := rfl
  have k₁ : Kept .cpufreqMax s r₁ := kept_growMax _ s
  have k₂ : Kept .cpufreqMin r₁.1 r₂ := kept_moveMin _ r₁.1
  have k₃ : Kept .cpufreqMax r₂.1 r₃ := kept_shrinkMax _ r₂.1
  have hwant : wantMin s.pwr ≤ wantMax s.pwr := by
    rw [wantMin_eq, wantMax_eq]; exact wanted_ordered s.pwr
  have p₁ : r₁.1.pwr = { s.pwr with curMax := max s.pwr.curMax (wantMax s.pwr) } :=
    growMax_pwr _ _ s
  have p₂ : r₂.1.pwr = { r₁.1.pwr with curMin := wantMin s.pwr } := moveMin_pwr _ _ r₁.1
  have p₃ : r₃.1.pwr = { r₂.1.pwr with curMax := min r₂.1.pwr.curMax (wantMax s.pwr) } :=
    shrinkMax_pwr _ _ r₂.1
  rw [happly]
  refine ⟨k₃.agrees (k₂.agrees (k₁.agrees ha)), ?_, ?_⟩
  · intro w hw
    simp only [List.mem_append] at hw
    rcases hw with (hw | hw) | hw
    · exact k₁.ordered ha (by rw [p₁]; exact le_max_of_le_left hord) w hw
    · exact k₂.ordered (k₁.agrees ha) (by rw [p₂, p₁]; exact le_max_of_le_right hwant) w hw
    · refine k₃.ordered (k₂.agrees (k₁.agrees ha)) ?_ w hw
      rw [p₃, p₂, p₁]
      exact le_min (le_max_of_le_right hwant) hwant
  · have hex : r₁.2 = [] ∨ r₃.2 = [] := growMax_or_shrinkMax _ _ _ s
    simp only [List.map_append]
    rcases hex with h | h <;> rcases k₂.nodes with h₂ | h₂
    · rcases k₃.nodes with h₃ | h₃ <;> simp [h, h₂, h₃]
    · rcases k₃.nodes with h₃ | h₃ <;> simp [h, h₂, h₃]
    · rcases k₁.nodes with h₁ | h₁ <;> simp [h, h₂, h₁]
    · rcases k₁.nodes with h₁ | h₁ <;> simp [h, h₂, h₁]

/-! ### One operation -/

/-- Once the module is initialised, an operation sets the inputs and calls `apply_locked`, or it
leaves the inputs alone and does nothing. -/
theorem runOp_cases (ok : ℕ → Bool) (op : Op) (now : Int) {s : State} (hi : s.pwr.inited = true) :
    runOp ok op now s = applyLocked ok { s with pwr := s.pwr.inputs op now } ∨
      runOp ok op now s = (s, []) ∧ s.pwr.inputs op now = s.pwr := by
  cases op with
  | init =>
    right
    refine ⟨by simp [runOp, a1000PowerInit, hi], ?_⟩
    simp [A1000Power.inputs, ← hi]
  | setInteractive on => cases on <;> exact .inl rfl
  | powerHint hint data =>
    cases hint with
    | interaction =>
      left
      simp only [runOp, a1000PowerHint, boost, A1000Power.inputs, A1000Power.merge]
      split_ifs <;> rfl
    | launch =>
      left
      simp only [runOp, a1000PowerHint, boost, A1000Power.inputs, A1000Power.merge]
      split_ifs <;> rfl
    | lowPower => exact .inl rfl
    | vsync => exact .inr ⟨rfl, rfl⟩
    | other hint => exact .inr ⟨rfl, rfl⟩
  | boostThread =>
    by_cases hf : s.pwr.boostFreq = 0
    · exact .inr ⟨by simp [runOp, boostThreadFn, hf],
        by simp [A1000Power.inputs, A1000Power.expire, hf]⟩
    · by_cases hd : now ≥ s.pwr.boostUntilMs
      · left
        simp [runOp, boostThreadFn, A1000Power.inputs, A1000Power.expire, hf, hd]
      · exact .inr ⟨by simp [runOp, boostThreadFn, hf, hd],
          by simp [A1000Power.inputs, A1000Power.expire, hf, hd]⟩

/-- The module is initialised and its cached window is the wanted one. -/
structure Cached (s : State) : Prop where
  inited : s.pwr.inited = true
  curMin : s.pwr.curMin = (wanted s.pwr).scalingMin
  curMax : s.pwr.curMax = (wanted s.pwr).scalingMax

theorem Cached.window {s : State} (h : Cached s) :
    (⟨s.pwr.curMin, s.pwr.curMax⟩ : Window) = wanted s.pwr := by
  rw [h.curMin, h.curMax]

theorem inputs_inited (op : Op) (now : Int) {p : A1000Power} (h : p.inited = true) :
    (p.inputs op now).inited = true := by
  cases op with
  | init => rfl
  | setInteractive on => cases on <;> exact h
  | powerHint hint data => cases hint <;> exact h
  | boostThread =>
    simp only [A1000Power.inputs, A1000Power.expire]
    split <;> exact h

/-- What the inputs are after an operation, kernel and cached bounds aside. -/
theorem runOp_inputs (ok : ℕ → Bool) (op : Op) (now : Int) {s : State}
    (hi : s.pwr.inited = true) :
    ∃ lo hi, (runOp ok op now s).1.pwr =
      { s.pwr.inputs op now with curMin := lo, curMax := hi } := by
  rcases runOp_cases ok op now hi with h | ⟨h, hin⟩
  · rw [h, applyLocked_pwr]
    exact ⟨_, _, rfl⟩
  · rw [h, hin]
    exact ⟨s.pwr.curMin, s.pwr.curMax, rfl⟩

/-- The cache is right after every operation, whatever the kernel answered. -/
theorem Cached.runOp {ok : ℕ → Bool} {op : Op} {now : Int} {s : State} (h : Cached s) :
    Cached (Power.runOp ok op now s).1 := by
  rcases runOp_cases ok op now h.inited with hr | ⟨hr, -⟩
  · rw [hr]
    have hp := applyLocked_pwr ok { s with pwr := s.pwr.inputs op now }
    refine ⟨?_, ?_, ?_⟩
    · rw [hp]; exact inputs_inited op now h.inited
    · rw [hp]; rfl
    · rw [hp]; rfl
  · rw [hr]; exact h

/-! ### Every run -/

/-- What the module promises of the operation `i` after the history `tr`, when it makes the writes
`ws` and leaves the state `t`. -/
structure Promised (tr : List ((Op × Int) × List Write)) (i : Op × Int) (t : State)
    (ws : List Write) : Prop where
  /-- The kernel's window is the one asked for, by this operation and those before it. -/
  tracks : t.kernel = ((asked tr).after i).window
  /-- No write, intermediate ones included, leaves the window inverted. -/
  ordered : ∀ w ∈ ws, w.window.scalingMin ≤ w.window.scalingMax
  /-- Nothing is written when neither bound that is asked for changes. -/
  idle : ((asked tr).after i).window = (asked tr).window → ws = []
  /-- Neither node is written twice. -/
  once : (ws.map Write.node).Nodup

/-- One operation, with every write accepted: the kernel follows, no write inverts the window or
comes without need, and neither node is written twice. -/
theorem accepted_runOp {s : State} (hc : Cached s) (ha : Agrees s) (op : Op) (now : Int) :
    Agrees (runOp allAccepted op now s).1 ∧
      (∀ w ∈ (runOp allAccepted op now s).2, w.window.scalingMin ≤ w.window.scalingMax) ∧
      (wanted (runOp allAccepted op now s).1.pwr = wanted s.pwr →
        (runOp allAccepted op now s).2 = []) ∧
      ((runOp allAccepted op now s).2.map Write.node).Nodup := by
  rcases runOp_cases allAccepted op now hc.inited with h | ⟨h, -⟩
  · set s' : State := { s with pwr := s.pwr.inputs op now } with hs'
    have hcur : s'.pwr.curMin = s.pwr.curMin ∧ s'.pwr.curMax = s.pwr.curMax := by
      cases op with
      | init => exact ⟨rfl, rfl⟩
      | setInteractive on => cases on <;> exact ⟨rfl, rfl⟩
      | powerHint hint data => cases hint <;> exact ⟨rfl, rfl⟩
      | boostThread =>
        simp only [hs', A1000Power.inputs, A1000Power.expire]
        split <;> exact ⟨rfl, rfl⟩
    have ha' : Agrees s' := by
      rw [Agrees]
      rw [hcur.1, hcur.2]
      exact ha
    have hord' : s'.pwr.curMin ≤ s'.pwr.curMax := by
      rw [hcur.1, hcur.2, hc.curMin, hc.curMax]
      exact wanted_ordered s.pwr
    obtain ⟨hag, hordered, honce⟩ := applyLocked_accepted ha' hord'
    rw [h]
    refine ⟨hag, hordered, fun hsame => applyLocked_idle ?_, honce⟩
    have hw : wanted (applyLocked allAccepted s').1.pwr = wanted s'.pwr := by
      rw [applyLocked_pwr]; exact wanted_congr rfl rfl rfl
    rw [hcur.1, hcur.2, hc.window, ← hw, hsame]
  · rw [h]
    exact ⟨ha, by simp, fun _ => rfl, by simp⟩

theorem cached_started (ok : ℕ → Bool) (k₀ : Window) : Cached (started ok k₀) :=
  ⟨rfl, rfl, rfl⟩

/-- Cached, in agreement with the kernel, and as the history asks. -/
structure InStep (tr : List ((Op × Int) × List Write)) (s : State) : Prop where
  cached : Cached s
  agrees : Agrees s
  heeds : Heeds s.pwr (asked tr)

theorem InStep.kernel {tr : List ((Op × Int) × List Write)} {s : State} (h : InStep tr s) :
    s.kernel = (asked tr).window :=
  h.agrees.trans (h.cached.window.trans h.heeds.wanted)

/-- One operation keeps the module in step and the promise. -/
theorem InStep.step {tr : List ((Op × Int) × List Write)} {s t : State} {i : Op × Int}
    {ws : List Write} (h : InStep tr s) (hstep : step allAccepted s i = some (t, ws)) :
    InStep (tr ++ [(i, ws)]) t ∧ Promised tr i t ws := by
  obtain ⟨op, now⟩ := i
  obtain ⟨rfl, rfl⟩ : (runOp allAccepted op now s).1 = t ∧ (runOp allAccepted op now s).2 = ws :=
    Prod.mk.inj (Option.some.inj hstep)
  obtain ⟨hagrees, hordered, hidle, honce⟩ := accepted_runOp h.cached h.agrees op now
  have hheeds : Heeds (runOp allAccepted op now s).1.pwr ((asked tr).after (op, now)) := by
    obtain ⟨lo, hi, hpwr⟩ := runOp_inputs allAccepted op now h.cached.inited
    have hin := h.heeds.inputs op now
    rw [hpwr]
    exact ⟨hin.screen, hin.lowPower, hin.boostFreq, hin.boostUntil⟩
  have hnext : InStep (tr ++ [((op, now), (runOp allAccepted op now s).2)])
      (runOp allAccepted op now s).1 :=
    ⟨h.cached.runOp, hagrees, by rw [asked_snoc]; exact hheeds⟩
  refine ⟨hnext, ?_, hordered, ?_, honce⟩
  · rw [← asked_snoc tr (op, now) (runOp allAccepted op now s).2]
    exact hnext.kernel
  · rw [← hheeds.wanted, ← h.heeds.wanted]
    exact hidle

/-- The invariant of every run whose writes are all accepted. -/
theorem inStep_of_run {k₀ : Window} {tr : List ((Op × Int) × List Write)} {s : State}
    (h : Run (step allAccepted) (started allAccepted k₀) tr s) : InStep tr s := by
  refine h.invariant (P := InStep) ?_ fun h _ hstep => (h.step hstep).1
  exact ⟨cached_started _ _, rfl, rfl, rfl, rfl, rfl⟩

/-- **The bounds track the inputs.** After `init`, whatever operations come in whatever order and
at whatever times, with every write accepted: the kernel's window is the one that the operations so
far ask for, and every further operation keeps it so, passes through no inverted window, writes
nothing it need not, and writes neither node twice. -/
theorem bounds_track_inputs {k₀ : Window} {tr : List ((Op × Int) × List Write)} {s : State}
    (h : Run (step allAccepted) (started allAccepted k₀) tr s) :
    s.kernel = (asked tr).window ∧
      ∀ i t ws, step allAccepted s i = some (t, ws) → Promised tr i t ws :=
  ⟨(inStep_of_run h).kernel, fun _ _ _ hstep => ((inStep_of_run h).step hstep).2⟩

/-- An application is launched and power saving is switched on: the boost is cut at the lower
maximum, and the next operation is held to the promise. -/
theorem bounds_track_inputs_launch_saving :
    ∃ (tr : List ((Op × Int) × List Write)) (s : State),
      Run (step allAccepted) (started allAccepted ⟨300000, 900000⟩) tr s ∧
      s.kernel = ⟨1000000, 1000000⟩ ∧ s.kernel = (asked tr).window ∧
        ∀ i t ws, step allAccepted s i = some (t, ws) → Promised tr i t ws := by
  have hexec : exec (step allAccepted) (fun _ _ => True) (started allAccepted ⟨300000, 900000⟩)
      [(.powerHint .launch false, 5), (.powerHint .lowPower true, 90)] = some _ := rfl
  have hrun := run_of_exec hexec
  exact ⟨_, _, hrun, rfl, bounds_track_inputs hrun⟩

end Power

end A1000
