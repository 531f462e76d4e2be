import A1000.Power.Bounds
import Mathlib.Order.Defs.LinearOrder

/-!
# What a boost window means

The header of the source promises two windows: a touch raises the minimum to 1000000 for 800 ms, a
launch to 1200000 for 2000 ms. The module keeps one frequency and one deadline and merges hints
into them separately, each by maximum. This file compares the two.

`largestFreq hs t` is the promise: the largest frequency among the hints `hs` whose own window
contains `t`. `A1000Power.effective` is what the module holds. They agree as long as no touch comes
in the last 800 ms of a launch boost (`boost_means_header`). A touch that does come then stretches
the *launch* frequency to the end of the *touch*: the first such touch already makes the two differ
at the old deadline (`late_touch_stretches_launch`).

## Main definitions

* `Power.timedStep` — operations at non-decreasing times, the boost thread running at each expiry
* `Power.sinceScreenOff`, `Power.largestFreq` — the promise of the header
* `Power.NoLateTouch` — no touch in the last 800 ms of a launch boost

## Main results

* `Power.boostInv_of_run` — the single frequency and deadline stand for all the windows
* `Power.boost_windows` — the promise holds in every run without late touches, and fails after the
  first late one
-/

namespace A1000

namespace Power

open StepSystem

/-! ### The promise -/

/-- A hint with the window the header gives it. -/
structure Hint where
  issued : Int
  duration : Int
  freq : Int
  deriving DecidableEq, Repr

/-- The window of a hint: from its issue, for its duration. -/
def Hint.Covers (h : Hint) (t : Int) : Prop := h.issued ≤ t ∧ t < h.issued + h.duration

instance (h : Hint) (t : Int) : Decidable (h.Covers t) :=
  inferInstanceAs (Decidable (_ ∧ _))

/-- The hint an operation at time `now` is, if it is one. -/
def hintOf : Op → Int → Option Hint
  | .powerHint .interaction _, now => some ⟨now, 800, 1000000⟩
  | .powerHint .launch _, now => some ⟨now, 2000, 1200000⟩
  | _, _ => none

/-- The hints so far, newest first, after one more operation: a screen-off forgets them. -/
def noteHint (hs : List Hint) (i : Op × Int) : List Hint :=
  if i.1 = .setInteractive false then [] else (hintOf i.1 i.2).toList ++ hs

/-- The hints issued since the last screen-off, newest first. -/
def sinceScreenOff (tr : List ((Op × Int) × List Write)) : List Hint :=
  tr.foldl (fun hs e => noteHint hs e.1) []

@[simp] theorem sinceScreenOff_snoc (tr : List ((Op × Int) × List Write)) (i : Op × Int)
    (ws : List Write) : sinceScreenOff (tr ++ [(i, ws)]) = noteHint (sinceScreenOff tr) i := by
  simp [sinceScreenOff]

/-- The largest frequency among the hints whose own window contains `t`, and 768000 when there is
none. -/
def largestFreq (hs : List Hint) (t : Int) : Int :=
  ((hs.filter fun h => h.Covers t).map Hint.freq).foldr max 768000

@[simp] theorem largestFreq_nil (t : Int) : largestFreq [] t = 768000 := rfl

theorem largestFreq_cons (h : Hint) (hs : List Hint) (t : Int) :
    largestFreq (h :: hs) t =
      if h.Covers t then max h.freq (largestFreq hs t) else largestFreq hs t := by
  by_cases hc : h.Covers t <;> simp [largestFreq, hc]

/-! ### Time -/

/-- The boost thread has run if the boost expired before `t`. -/
def Settled (p : A1000Power) (t : Int) : Prop := p.boostFreq = 0 ∨ t < p.boostUntilMs

instance (p : A1000Power) (t : Int) : Decidable (Settled p t) :=
  inferInstanceAs (Decidable (_ ∨ _))

/-- Operations at non-decreasing times. The boost thread wakes up whenever it likes, and everything
else finds that it has run at the expiry. -/
def timedStep (ok : ℕ → Bool) (s : State × Int) (i : Op × Int) :
    Option ((State × Int) × List Write) :=
  if s.2 ≤ i.2 ∧ (i.1 = .boostThread ∨ Settled s.1.pwr i.2) then
    some (((runOp ok i.1 i.2 s.1).1, i.2), (runOp ok i.1 i.2 s.1).2)
  else none

/-- The boost the module holds, read at time `t`. -/
def A1000Power.effective (p : A1000Power) (t : Int) : Int :=
  if p.boostFreq > 0 ∧ t < p.boostUntilMs then p.boostFreq else 768000

/-- The touch at time `now` does not come in the last 800 ms of a launch boost. -/
def NoLateTouch (s : State × Int) (i : Op × Int) : Prop :=
  hintOf i.1 i.2 = some ⟨i.2, 800, 1000000⟩ →
    ¬ (s.1.pwr.boostFreq > 1000000 ∧ i.2 < s.1.pwr.boostUntilMs ∧
      s.1.pwr.boostUntilMs < i.2 + 800)

instance (s : State × Int) (i : Op × Int) : Decidable (NoLateTouch s i) :=
  inferInstanceAs (Decidable (_ → _))

/-! ### One frequency and one deadline stand for all the windows -/

/-- The invariant of runs without late touches: seen from the present on, the module's one window
is the union of all of them. The other clauses are what a later hint needs to know about the
running boost: a spent deadline lies in the past, and the deadline of a touch is at most 800 ms
ahead. -/
structure BoostInv (tr : List ((Op × Int) × List Write)) (p : A1000Power) (c : Int) : Prop where
  freq : p.boostFreq = 0 ∨ p.boostFreq = 1000000 ∨ p.boostFreq = 1200000
  spent : p.boostFreq = 0 → p.boostUntilMs ≤ c
  touch : p.boostFreq = 1000000 → p.boostUntilMs ≤ c + 800
  launch : p.boostFreq = 1200000 → p.boostUntilMs ≤ c + 2000
  clock : 0 ≤ c
  agree : ∀ t, c ≤ t → largestFreq (sinceScreenOff tr) t = p.effective t

/-- Time may pass, and everything but the frequency and the deadline may change. -/
theorem BoostInv.later {tr tr' : List ((Op × Int) × List Write)} {p q : A1000Power} {c now : Int}
    (h : BoostInv tr p c) (hc : c ≤ now) (hs : sinceScreenOff tr' = sinceScreenOff tr)
    (hf : q.boostFreq = p.boostFreq) (hu : q.boostUntilMs = p.boostUntilMs) :
    BoostInv tr' q now where
  freq := by rw [hf]; exact h.freq
  spent := by rw [hf, hu]; exact fun h0 => (h.spent h0).trans hc
  touch := by
    rw [hf, hu]; intro h0
    have := h.touch h0
    omega
  launch := by
    rw [hf, hu]; intro h0
    have := h.launch h0
    omega
  clock := h.clock.trans hc
  agree t ht := by
    rw [hs, h.agree t (hc.trans ht), A1000Power.effective, A1000Power.effective, hf, hu]

/-- The thread takes an expired boost back. -/
theorem BoostInv.expire {tr tr' : List ((Op × Int) × List Write)} {p : A1000Power} {c now : Int}
    (h : BoostInv tr p c) (hc : c ≤ now) (hs : sinceScreenOff tr' = sinceScreenOff tr) :
    BoostInv tr' (p.expire now) now := by
  by_cases hexp : p.boostFreq ≠ 0 ∧ now ≥ p.boostUntilMs
  · have hp : p.expire now = { p with boostFreq := 0 } := by simp [A1000Power.expire, hexp]
    rw [hp]
    refine ⟨.inl rfl, fun _ => hexp.2, by simp, by simp, h.clock.trans hc, fun t ht => ?_⟩
    have hgone : ¬ (p.boostFreq > 0 ∧ t < p.boostUntilMs) := by omega
    rw [hs, h.agree t (hc.trans ht), A1000Power.effective, A1000Power.effective, if_neg hgone]
    simp
  · have hp : p.expire now = p := by simp only [A1000Power.expire, hexp, if_false]
    rw [hp]
    exact h.later hc hs rfl rfl

/-- A hint of strength `f` finds a boost that is not stronger and ends not later, or a stronger one
that outlasts it. A boost that is not running counts for the first, for its deadline has passed. -/
theorem BoostInv.running {tr : List ((Op × Int) × List Write)} {p : A1000Power} {c now f d : Int}
    (h : BoostInv tr p c) (hc : c ≤ now) (hset : Settled p now)
    (hfd : f = 1000000 ∧ d = 800 ∨ f = 1200000 ∧ d = 2000)
    (hlate : f = 1000000 → ¬ (p.boostFreq > 1000000 ∧ now < p.boostUntilMs ∧
      p.boostUntilMs < now + 800)) :
    p.boostFreq ≤ f ∧ p.boostUntilMs ≤ now + d ∨
      f = 1000000 ∧ p.boostFreq = 1200000 ∧ now + d ≤ p.boostUntilMs := by
  rcases h.freq with hnone | htouch | hlaunch
  · have hpast := h.spent hnone
    rcases hfd with ⟨rfl, rfl⟩ | ⟨rfl, rfl⟩ <;> exact .inl ⟨by omega, by omega⟩
  · have hsoon := h.touch htouch
    rcases hfd with ⟨rfl, rfl⟩ | ⟨rfl, rfl⟩ <;> exact .inl ⟨by omega, by omega⟩
  · rcases hfd with ⟨rfl, rfl⟩ | ⟨rfl, rfl⟩
    · have hearly := hlate rfl
      have hrunning := hset.resolve_left (by omega)
      exact .inr ⟨rfl, hlaunch, by omega⟩
    · have hsoon := h.launch hlaunch
      exact .inl ⟨by omega, by omega⟩

/-- A hint that finds no stronger boost, or one that outlasts it, merges into the running one. -/
theorem BoostInv.hint {tr tr' : List ((Op × Int) × List Write)} {p : A1000Power}
    {c now f d : Int} (h : BoostInv tr p c) (hc : c ≤ now) (hset : Settled p now)
    (hfd : f = 1000000 ∧ d = 800 ∨ f = 1200000 ∧ d = 2000)
    (hs : sinceScreenOff tr' = ⟨now, d, f⟩ :: sinceScreenOff tr)
    (hlate : f = 1000000 → ¬ (p.boostFreq > 1000000 ∧ now < p.boostUntilMs ∧
      p.boostUntilMs < now + 800)) :
    BoostInv tr' (p.merge f (now + d)) now := by
  have hspec : ∀ t, now ≤ t → largestFreq (sinceScreenOff tr') t =
      if t < now + d then max f (p.effective t) else p.effective t := by
    intro t ht
    rw [hs, largestFreq_cons, h.agree t (hc.trans ht)]
    simp only [Hint.Covers, ht, true_and]
  rcases h.running hc hset hfd hlate with ⟨hf, hu⟩ | ⟨rfl, hf, hu⟩
  · -- the new window swallows what is left of the old one
    have hfreq : (p.merge f (now + d)).boostFreq = f := by
      simp only [A1000Power.merge]
      split_ifs <;> omega
    have huntil : (p.merge f (now + d)).boostUntilMs = now + d := by
      simp only [A1000Power.merge]
      split_ifs <;> omega
    have hpos : 768000 ≤ f := by omega
    have hweak : ∀ t, p.effective t ≤ f := by
      intro t
      rw [A1000Power.effective]
      split_ifs
      · exact hf
      · exact hpos
    refine ⟨?_, ?_, ?_, ?_, h.clock.trans hc, fun t ht => ?_⟩
    · rw [hfreq]
      exact .inr (hfd.imp And.left And.left)
    · rw [hfreq]
      omega
    · rw [hfreq, huntil]
      omega
    · rw [hfreq, huntil]
      omega
    · have hnew : (p.merge f (now + d)).effective t =
          if f > 0 ∧ t < now + d then f else 768000 := by
        rw [A1000Power.effective, hfreq, huntil]
      rw [hspec t ht, hnew]
      by_cases hin : t < now + d
      · rw [if_pos hin, if_pos ⟨by omega, hin⟩, max_eq_left (hweak t)]
      · rw [if_neg hin, if_neg (not_and.mpr fun _ => hin), A1000Power.effective,
          if_neg (by omega)]
  · -- the stronger boost stays as it is, and the new window lies in its own
    have hp : p.merge 1000000 (now + d) = p := by
      rw [A1000Power.merge, if_neg (by omega), if_neg (by omega)]
    rw [hp]
    have hlong := h.launch hf
    refine ⟨h.freq, by omega, by omega, fun _ => by omega, h.clock.trans hc, fun t ht => ?_⟩
    rw [hspec t ht]
    split_ifs with hin
    · have heff : p.effective t = 1200000 := by
        rw [A1000Power.effective, if_pos ⟨by omega, by omega⟩, hf]
      rw [heff]
      rfl
    · rfl

/-- **One operation.** -/
theorem BoostInv.inputs {tr : List ((Op × Int) × List Write)} {p : A1000Power} {c now : Int}
    {op : Op} {ws : List Write} (h : BoostInv tr p c) (hc : c ≤ now)
    (hset : op = .boostThread ∨ Settled p now)
    (hlate : hintOf op now = some ⟨now, 800, 1000000⟩ →
      ¬ (p.boostFreq > 1000000 ∧ now < p.boostUntilMs ∧ p.boostUntilMs < now + 800)) :
    BoostInv (tr ++ [((op, now), ws)]) (p.inputs op now) now := by
  cases op with
  | init => exact h.later hc (by simp [noteHint, hintOf]) rfl rfl
  | setInteractive on =>
    cases on with
    | true => exact h.later hc (by simp [noteHint, hintOf]) rfl rfl
    | false =>
      refine ⟨.inl rfl, fun _ => h.clock.trans hc, ?_, ?_, h.clock.trans hc, fun t _ => ?_⟩
      · simp [A1000Power.inputs]
      · simp [A1000Power.inputs]
      · simp [noteHint, A1000Power.effective, A1000Power.inputs]
  | powerHint hint data =>
    cases hint with
    | interaction =>
      exact h.hint hc (hset.resolve_left (by simp)) (.inl ⟨rfl, rfl⟩)
        (by simp [noteHint, hintOf, boostMsInteraction, freqInteractive]) fun _ => hlate rfl
    | launch =>
      exact h.hint hc (hset.resolve_left (by simp)) (.inr ⟨rfl, rfl⟩)
        (by simp [noteHint, hintOf, boostMsLaunch, freqLaunch]) fun hf => absurd hf (by decide)
    | lowPower => exact h.later hc (by simp [noteHint, hintOf]) rfl rfl
    | vsync => exact h.later hc (by simp [noteHint, hintOf]) rfl rfl
    | other hint => exact h.later hc (by simp [noteHint, hintOf]) rfl rfl
  | boostThread => exact h.expire hc (by simp [noteHint, hintOf])

/-! ### Every run -/

/-- The frequency and the deadline after an operation are those of its inputs. -/
theorem BoostInv.congr {tr : List ((Op × Int) × List Write)} {p : A1000Power} {c lo hi : Int}
    (h : BoostInv tr p c) : BoostInv tr { p with curMin := lo, curMax := hi } c :=
  h.later (le_refl c) rfl rfl rfl

/-- What a possible step of the timed system is. -/
theorem timedStep_eq_some {ok : ℕ → Bool} {s s' : State × Int} {i : Op × Int} {ws : List Write}
    (h : timedStep ok s i = some (s', ws)) :
    s.2 ≤ i.2 ∧ (i.1 = .boostThread ∨ Settled s.1.pwr i.2) ∧
      s'.1 = (runOp ok i.1 i.2 s.1).1 ∧ s'.2 = i.2 := by
  rw [timedStep] at h
  split at h
  · rename_i hen
    simp only [Option.some.injEq, Prod.mk.injEq] at h
    exact ⟨hen.1, hen.2, by rw [← h.1], by rw [← h.1]⟩
  · cases h

/-- In a run without late touches the module's one window is the union of all of them. -/
theorem boostInv_of_run {ok : ℕ → Bool} {k₀ : Window} {tr : List ((Op × Int) × List Write)}
    {s : State × Int} (h : RunWhere (timedStep ok) NoLateTouch (started ok k₀, 0) tr s) :
    Cached s.1 ∧ BoostInv tr s.1.pwr s.2 := by
  refine h.invariant (P := fun tr s => Cached s.1 ∧ BoostInv tr s.1.pwr s.2) ?_ ?_
  · exact ⟨cached_started ok k₀, .inl rfl, fun _ => le_refl _,
      fun h0 => absurd (show (0 : Int) = 1000000 from h0) (by decide),
      fun h0 => absurd (show (0 : Int) = 1200000 from h0) (by decide), le_refl _, fun _ _ => rfl⟩
  · rintro tr s i t o ⟨hc, hb⟩ hlate hstep
    obtain ⟨hle, hset, hst, htime⟩ := timedStep_eq_some hstep
    obtain ⟨lo, hi, hpwr⟩ := runOp_inputs ok i.1 i.2 hc.inited
    rw [hst, htime]
    refine ⟨hc.runOp, ?_⟩
    rw [hpwr]
    exact (hb.inputs hle hset hlate).congr

/-- With the screen on and no power saving the requested minimum is the boost that is held. -/
theorem Cached.curMin_eq {s : State} (h : Cached s) (hon : s.pwr.screenOn = true)
    (hlow : s.pwr.lowPower = false) (hfreq : s.pwr.boostFreq ≤ 1300000) {t : Int}
    (hset : Settled s.pwr t) : s.pwr.curMin = s.pwr.effective t := by
  rw [h.curMin, wanted, A1000Power.effective]
  rw [Settled] at hset
  simp only [hon, hlow]
  split_ifs
  all_goals simp_all
  omega

/-- **The header, at a moment of a run.** With the screen on and no power saving, at every time `t`
from now on at which the boost thread has nothing left to do, the requested minimum is the largest
frequency among the hints since the last screen-off whose own window contains `t`. -/
def MeansHeader (tr : List ((Op × Int) × List Write)) (s : State × Int) : Prop :=
  s.1.pwr.screenOn = true → s.1.pwr.lowPower = false →
    ∀ t, s.2 ≤ t → Settled s.1.pwr t → s.1.pwr.curMin = largestFreq (sinceScreenOff tr) t

/-- The first late touch stretches the launch frequency past its window: at the deadline of the
launch the module still asks for 1200000, while only the touch is left. -/
theorem late_touch_stretches_launch {ok : ℕ → Bool} {tr : List ((Op × Int) × List Write)}
    {s s' : State × Int} {i : Op × Int} {ws : List Write} (hc : Cached s.1)
    (hb : BoostInv tr s.1.pwr s.2) (hon : s.1.pwr.screenOn = true)
    (hlow : s.1.pwr.lowPower = false) (hstep : timedStep ok s i = some (s', ws))
    (hlate : ¬ NoLateTouch s i) : ¬ MeansHeader (tr ++ [(i, ws)]) s' := by
  obtain ⟨op, now⟩ := i
  obtain ⟨hle, -, hst, htime⟩ := timedStep_eq_some hstep
  simp only [NoLateTouch, Classical.not_imp, not_not] at hlate hle hst htime
  obtain ⟨hhint, hstrong, hrunning, hshort⟩ := hlate
  obtain ⟨data, rfl⟩ : ∃ data, op = .powerHint .interaction data := by
    cases op with
    | powerHint hint data => cases hint <;> simp_all [hintOf]
    | _ => simp_all [hintOf]
  have hfreq : s.1.pwr.boostFreq = 1200000 := by
    have := hb.freq
    omega
  obtain ⟨lo, hi, hpwr⟩ := runOp_inputs ok (.powerHint .interaction data) now hc.inited
  have hpwr' : s'.1.pwr =
      { s.1.pwr.merge 1000000 (now + 800) with curMin := lo, curMax := hi } := by
    rw [hst, hpwr]; rfl
  have hf' : s'.1.pwr.boostFreq = 1200000 := by
    rw [hpwr']; simp [A1000Power.merge, hfreq]
  have hu' : s'.1.pwr.boostUntilMs = now + 800 := by
    rw [hpwr']; simp [A1000Power.merge]; omega
  intro hmeans
  have hset' : Settled s'.1.pwr s.1.pwr.boostUntilMs := .inr (by omega)
  have hon' : s'.1.pwr.screenOn = true := by rw [hpwr']; exact hon
  have hlow' : s'.1.pwr.lowPower = false := by rw [hpwr']; exact hlow
  have hc' : Cached s'.1 := hst ▸ hc.runOp
  have hreq := hmeans hon' hlow' s.1.pwr.boostUntilMs (by omega) hset'
  have hheld : s'.1.pwr.curMin = 1200000 := by
    rw [hc'.curMin_eq hon' hlow' (by omega) hset', A1000Power.effective, hf', hu']
    simp; omega
  have hspec : largestFreq (sinceScreenOff (tr ++ [((.powerHint .interaction data, now), ws)]))
      s.1.pwr.boostUntilMs = 1000000 := by
    have hold : largestFreq (sinceScreenOff tr) s.1.pwr.boostUntilMs = 768000 := by
      rw [hb.agree _ (by omega), A1000Power.effective]; simp
    have hnote : sinceScreenOff (tr ++ [((Op.powerHint .interaction data, now), ws)]) =
        ⟨now, 800, 1000000⟩ :: sinceScreenOff tr := by simp [noteHint, hintOf]
    rw [hnote, largestFreq_cons, hold]
    simp [Hint.Covers]; omega
  omega

/-- **The boost windows mean what the header says, until a touch comes late.** In every run in
which no touch comes in the last 800 ms of a launch boost, the requested minimum is the one the
header promises, at every time; and the first touch that does come late breaks the promise. -/
theorem boost_windows {ok : ℕ → Bool} {k₀ : Window} {tr : List ((Op × Int) × List Write)}
    {s : State × Int} (h : RunWhere (timedStep ok) NoLateTouch (started ok k₀, 0) tr s) :
    MeansHeader tr s ∧
      ∀ i s' ws, timedStep ok s i = some (s', ws) → s.1.pwr.screenOn = true →
        s.1.pwr.lowPower = false → ¬ NoLateTouch s i → ¬ MeansHeader (tr ++ [(i, ws)]) s' := by
  obtain ⟨hc, hb⟩ := boostInv_of_run h
  refine ⟨fun hon hlow t ht hset => ?_, fun i s' ws hstep hon hlow hlate => ?_⟩
  · have hfreq := hb.freq
    rw [hc.curMin_eq hon hlow (by omega) hset, hb.agree t ht]
  · exact late_touch_stretches_launch hc hb hon hlow hstep hlate

/-- A launch at 0 and a touch at 1000, which is early enough to be forgotten. -/
theorem boost_windows_early_touch :
    let tr : List ((Op × Int) × List Write) :=
      [((.powerHint .launch false, 0), [⟨.cpufreqMin, 1200000, true, ⟨1200000, 1300000⟩⟩]),
        ((.powerHint .interaction false, 1000), [])]
    let s : State × Int :=
      (⟨⟨true, false, 1200000, 2000, 1200000, 1300000, true⟩, ⟨1200000, 1300000⟩, 3⟩, 1000)
    MeansHeader tr s ∧
      ∀ i s' ws, timedStep allAccepted s i = some (s', ws) → s.1.pwr.screenOn = true →
        s.1.pwr.lowPower = false → ¬ NoLateTouch s i → ¬ MeansHeader (tr ++ [(i, ws)]) s' :=
  @boost_windows allAccepted ⟨768000, 1300000⟩ _ _ <| run_of_exec <|
    show exec (timedStep allAccepted) NoLateTouch _
      [(.powerHint .launch false, 0), (.powerHint .interaction false, 1000)] = some (_, _) from rfl

/-- A launch at 0 and a touch at 1900: at 2100 only the touch is left, and the module still asks
for the launch frequency. -/
theorem boost_windows_not_always :
    ¬ ∀ (k₀ : Window) (tr : List ((Op × Int) × List Write)) (s : State × Int),
      Run (timedStep allAccepted) (started allAccepted k₀, 0) tr s → MeansHeader tr s := by
  intro hall
  have hrun : Run (timedStep allAccepted) (started allAccepted ⟨768000, 1300000⟩, 0)
      [((.powerHint .launch false, 0), [⟨.cpufreqMin, 1200000, true, ⟨1200000, 1300000⟩⟩]),
        ((.powerHint .interaction false, 1900), [])]
      (⟨⟨true, false, 1200000, 2700, 1200000, 1300000, true⟩, ⟨1200000, 1300000⟩, 3⟩, 1900) :=
    run_of_exec <|
      show exec (timedStep allAccepted) (fun _ _ => True) _
        [(.powerHint .launch false, 0), (.powerHint .interaction false, 1900)] =
          some (_, _) from rfl
  have hreq := hall _ _ _ hrun rfl rfl 2100 (by decide) (by decide)
  revert hreq
  decide

end Power

end A1000
