import A1000.Lib.Run
import Mathlib.Algebra.Order.Ring.Int
import Mathlib.Tactic.Linarith

/-!
# The period of the panel

The kernel computes `pixclock` from the frame rate it was asked for, not from the one the panel
runs at. `a1000_fix_vsync_period` puts that right on the way out of `FBIOGET_VSCREENINFO`: it
measures eight periods by the vertical interrupts, once, and computes `pixclock` back from them.

A `long` has 32 bits. Signed arithmetic is taken to wrap, as the machine does it; the quotient is
computed in 64 bits, where nothing wraps, and cut down to 32.

## Main definitions

* `Pixclock.a1000MeasurePeriod`, `Pixclock.a1000FixVsyncPeriod` — the two functions
* `Pixclock.Corrected` — a change of `pixclock` reflects the measured time
* `Pixclock.Unwrapped` — a change of `pixclock` comes from numbers that have not wrapped

## Main results

* `Pixclock.measured_eq` — what is measured: the elapsed time modulo `2 ^ 32`, if that is plausible
* `Pixclock.corrected_iff` — one call
* `Pixclock.pixclock_faithful_iff` — every run of calls
-/

namespace A1000

namespace Pixclock

open StepSystem

/-! ### Time -/

/-- A reading of the monotonic clock. -/
structure Timespec where
  tvSec : ℕ
  tvNsec : ℕ
  sec_lt : tvSec < 2 ^ 31
  nsec_lt : tvNsec < 10 ^ 9
  deriving DecidableEq, Repr

/-- The reading in nanoseconds. -/
def Timespec.ns (t : Timespec) : ℕ := t.tvSec * 10 ^ 9 + t.tvNsec

/-- The readings before and after eight periods. -/
structure Bracket where
  t₀ : Timespec
  t₁ : Timespec
  le : t₀.ns ≤ t₁.ns
  deriving DecidableEq, Repr

/-- How long eight periods have taken, in nanoseconds. -/
def Bracket.elapsed (b : Bracket) : ℕ := b.t₁.ns - b.t₀.ns

/-- What is left of a number in a `long`. -/
def long (x : Int) : Int := x.bmod (2 ^ 32)

/-- `ns` of `a1000_measure_period`. -/
def meanNs (b : Bracket) : Int :=
  (long (long (long (b.t₁.tvSec - b.t₀.tvSec) * 1000000000) +
    long (b.t₁.tvNsec - b.t₀.tvNsec))).tdiv 8

/-- `a1000_measure_period`; there are no readings when one of the waits has failed. -/
def a1000MeasurePeriod (w : Option Bracket) : Int :=
  match w with
  | none => 0
  | some b => if meanNs b > 8000000 ∧ meanNs b < 30000000 then meanNs b else 0

/-! ### The correction -/

/-- What `a1000_fix_vsync_period` uses of `struct fb_var_screeninfo`. -/
structure ScreenInfo where
  xres : UInt32
  yres : UInt32
  pixclock : UInt32
  deriving DecidableEq, Repr

/-- A call: whether it is about `FBIOGET_VSCREENINFO` and has an argument, what the property
`debug.sf.a1000_truefps` says, what waiting for eight periods gives if it comes to that, and the
argument. -/
structure Call where
  vscreeninfo : Bool
  truefps : Bool
  waits : Option Bracket
  vi : ScreenInfo
  deriving DecidableEq, Repr

/-- The static variables, `on` being `none` while it is -1; and the readings that `period` was
measured by. -/
structure State where
  period : Int
  on : Option Bool
  readings : Option Bracket
  deriving DecidableEq, Repr

def start : State := ⟨0, none, none⟩

/-- The new `pixclock`, before it is cut down to 32 bits. -/
def quotient (period : ℕ) (vi : ScreenInfo) : ℕ :=
  period * 1000 / (vi.xres.toNat * vi.yres.toNat)

/-- The end of `a1000_fix_vsync_period`: `pixclock` as it is left. -/
def adjust (period : Int) (vi : ScreenInfo) : UInt32 :=
  if period ≤ 0 ∨ vi.xres = 0 ∨ vi.yres = 0 then vi.pixclock
  else
    let px := UInt32.ofNat (quotient period.toNat vi)
    if px > 1000 ∧ px < 1000000 ∧ px ≠ vi.pixclock then px else vi.pixclock

/-- What the static variables are when it comes to that. -/
def remeasure (c : Call) (s : State) : State :=
  if s.period ≤ 0 then { s with period := a1000MeasurePeriod c.waits, readings := c.waits } else s

/-- `a1000_fix_vsync_period`: the static variables, and `pixclock` as it is left. -/
def a1000FixVsyncPeriod (c : Call) (s : State) : State × UInt32 :=
  if ¬ c.vscreeninfo then (s, c.vi.pixclock)
  else
    let s := { s with on := some (s.on.getD c.truefps) }
    if s.on = some false then (s, c.vi.pixclock)
    else (remeasure c s, adjust (remeasure c s).period c.vi)

/-- One call; it gives `pixclock` as it is left, and the readings it goes by. -/
def step (s : State) (c : Call) : Option (State × UInt32 × Option Bracket) :=
  let r := a1000FixVsyncPeriod c s
  some (r.1, r.2, r.1.readings)

/-! ### The property and the condition -/

/-- **A change of `pixclock` reflects what was measured**: the mean of the eight periods is between
8 and 30 ms, and the new value is the exact quotient, rounded down. -/
def Corrected (c : Call) (pixclock : UInt32) (readings : Option Bracket) : Prop :=
  pixclock ≠ c.vi.pixclock → ∃ b, readings = some b ∧
    8 * 8000000 < b.elapsed ∧ b.elapsed < 8 * 30000000 ∧
    pixclock.toNat * (c.vi.xres.toNat * c.vi.yres.toNat) ≤ 1000 * (b.elapsed / 8) ∧
    1000 * (b.elapsed / 8) < (pixclock.toNat + 1) * (c.vi.xres.toNat * c.vi.yres.toNat)

/-- What is left of the elapsed time in 32 bits. -/
def Bracket.rest (b : Bracket) : ℕ := b.elapsed % 2 ^ 32

/-- Eight periods of more than 8 and less than 30 ms, as far as 32 bits and whole nanoseconds
tell. -/
def Bracket.Plausible (b : Bracket) : Prop :=
  8 * 8000001 ≤ b.rest ∧ b.rest < 8 * 30000000

/-- A value that `pixclock` may be changed to. -/
def ScreenInfo.Takes (vi : ScreenInfo) (px : ℕ) : Prop :=
  1000 < px ∧ px < 1000000 ∧ px ≠ vi.pixclock.toNat

/-- **Nothing has wrapped** where `pixclock` is changed: neither the elapsed time nor the quotient
has more than 32 bits. -/
def Unwrapped (b : Bracket) (vi : ScreenInfo) : Prop :=
  b.Plausible → vi.xres ≠ 0 → vi.yres ≠ 0 → vi.Takes (quotient (b.rest / 8) vi % 2 ^ 32) →
    b.elapsed < 2 ^ 32 ∧ quotient (b.rest / 8) vi < 2 ^ 32

/-- The readings a call goes by. -/
def State.reads (s : State) (c : Call) : Option Bracket :=
  if s.period ≤ 0 then c.waits else s.readings

/-- The condition on a call, and on the static variables before it. -/
def Sound (s : State) (c : Call) : Prop :=
  c.vscreeninfo = true → s.on.getD c.truefps = true → ∀ b, s.reads c = some b → Unwrapped b c.vi

/-! ### What is measured -/

/-- The three steps in a `long` are one. -/
theorem long_elapsed (b : Bracket) :
    long (long (long (b.t₁.tvSec - b.t₀.tvSec) * 1000000000) +
      long (b.t₁.tvNsec - b.t₀.tvNsec)) = (b.elapsed : Int).bmod (2 ^ 32) := by
  have hexact : (b.elapsed : Int) =
      ((b.t₁.tvSec : Int) - b.t₀.tvSec) * 1000000000 + (b.t₁.tvNsec - b.t₀.tvNsec) := by
    have hle := b.le
    simp only [Bracket.elapsed, Timespec.ns] at hle ⊢
    omega
  simp only [long, Int.bmod_add_bmod, Int.add_bmod_bmod, hexact]
  rw [Int.add_bmod, Int.bmod_mul_bmod, ← Int.add_bmod]

/-- A rest that a `long` can hold is divided as it is. -/
theorem meanNs_of_lt {b : Bracket} (h : b.rest < 2 ^ 31) : meanNs b = (b.rest / 8 : ℕ) := by
  have hmod : (b.elapsed : Int) % (2 ^ 32 : ℕ) = (b.rest : ℕ) := (Int.natCast_mod _ _).symm
  rw [meanNs, long_elapsed, Int.bmod_eq_emod_of_lt (by rw [hmod]; omega), hmod]
  exact Int.ofNat_tdiv b.rest 8

/-- Any other is negative there. -/
theorem meanNs_of_ge {b : Bracket} (h : 2 ^ 31 ≤ b.rest) : meanNs b ≤ 0 := by
  have hmod : (b.elapsed : Int) % (2 ^ 32 : ℕ) = (b.rest : ℕ) := (Int.natCast_mod _ _).symm
  have hlt : b.rest < 2 ^ 32 := Nat.mod_lt _ (by decide)
  rw [meanNs, long_elapsed, Int.bmod_neg _ _ (by rw [hmod]; omega), hmod]
  have hneg := Int.tdiv_nonneg (a := 2 ^ 32 - b.rest) (b := 8) (by omega) (by decide)
  have hminus : (b.rest : Int) - (2 ^ 32 : ℕ) = -(2 ^ 32 - b.rest) := by omega
  rw [hminus, Int.neg_tdiv]
  omega

theorem plausible_iff (b : Bracket) :
    meanNs b > 8000000 ∧ meanNs b < 30000000 ↔ b.Plausible := by
  rw [Bracket.Plausible]
  rcases Nat.lt_or_ge b.rest (2 ^ 31) with hlt | hge
  · rw [meanNs_of_lt hlt]
    omega
  · have hneg := meanNs_of_ge hge
    omega

/-- **What is measured**: the elapsed time modulo `2 ^ 32`, if that is plausible. -/
theorem measured_eq_mean {b : Bracket} (h : b.Plausible) :
    a1000MeasurePeriod (some b) = (b.rest / 8 : ℕ) := by
  have hlt : b.rest < 2 ^ 31 := h.2.trans (by decide)
  rw [a1000MeasurePeriod, if_pos ((plausible_iff b).mpr h), meanNs_of_lt hlt]

theorem measured_eq_zero {b : Bracket} (h : ¬ b.Plausible) :
    a1000MeasurePeriod (some b) = 0 := by
  rw [a1000MeasurePeriod, if_neg fun hrange => h ((plausible_iff b).mp hrange)]

/-! ### What is changed -/

theorem adjust_eq {period : ℕ} (hpos : 0 < period) {vi : ScreenInfo} (hx : vi.xres ≠ 0)
    (hy : vi.yres ≠ 0) :
    (vi.Takes (quotient period vi % 2 ^ 32) →
        (adjust period vi).toNat = quotient period vi % 2 ^ 32) ∧
      (¬ vi.Takes (quotient period vi % 2 ^ 32) → adjust period vi = vi.pixclock) := by
  have hguard : ¬ ((period : Int) ≤ 0 ∨ vi.xres = 0 ∨ vi.yres = 0) := by
    simp only [hx, hy, or_false]
    omega
  have hpx : (UInt32.ofNat (quotient period vi)).toNat = quotient period vi % 2 ^ 32 := rfl
  have htakes : UInt32.ofNat (quotient period vi) > 1000 ∧
      UInt32.ofNat (quotient period vi) < 1000000 ∧
        UInt32.ofNat (quotient period vi) ≠ vi.pixclock ↔
      vi.Takes (quotient period vi % 2 ^ 32) := by
    rw [ScreenInfo.Takes, gt_iff_lt, UInt32.lt_iff_toNat_lt, UInt32.lt_iff_toNat_lt, ← hpx, Ne,
      ← UInt32.toNat_inj]
    exact Iff.rfl
  simp only [adjust, hguard, if_false, Int.toNat_natCast]
  constructor
  · intro h
    rw [if_pos (htakes.mpr h), hpx]
  · intro h
    rw [if_neg fun hc => h (htakes.mp hc)]

/-- The bounds of a quotient. -/
theorem quotient_spec (period : ℕ) {vi : ScreenInfo} (hx : vi.xres ≠ 0) (hy : vi.yres ≠ 0)
    (px : ℕ) :
    px * (vi.xres.toNat * vi.yres.toNat) ≤ 1000 * period ∧
        1000 * period < (px + 1) * (vi.xres.toNat * vi.yres.toNat) ↔
      px = quotient period vi := by
  have hpos : 0 < vi.xres.toNat * vi.yres.toNat :=
    Nat.mul_pos (Nat.pos_of_ne_zero fun h => hx (UInt32.toNat_inj.mp h))
      (Nat.pos_of_ne_zero fun h => hy (UInt32.toNat_inj.mp h))
  rw [quotient, eq_comm, Nat.div_eq_iff hpos, Nat.mul_comm period]
  generalize vi.xres.toNat * vi.yres.toNat = d at hpos
  rw [Nat.add_one_mul px d]
  generalize px * d = p
  omega

/-! ### One call -/

/-- The period that is kept was measured by the readings that are kept. -/
def Inv (s : State) : Prop :=
  s.period ≤ 0 ∨ ∃ b, s.readings = some b ∧ b.Plausible ∧ s.period = (b.rest / 8 : ℕ)

theorem inv_start : Inv start := .inl le_rfl

theorem readings_remeasure (c : Call) (s : State) : (remeasure c s).readings = s.reads c := by
  rw [remeasure, State.reads]
  split <;> rfl

theorem Inv.remeasure {s : State} (h : Inv s) (c : Call) : Inv (remeasure c s) := by
  rw [Pixclock.remeasure]
  split
  · cases hw : c.waits with
    | none => exact .inl le_rfl
    | some b =>
      by_cases hb : b.Plausible
      · exact .inr ⟨b, rfl, hb, measured_eq_mean hb⟩
      · exact .inl (measured_eq_zero hb).le
  · exact h

/-- When there is no period, the readings were not plausible. -/
theorem not_plausible_of_period_le {s : State} {c : Call} (h : (remeasure c s).period ≤ 0)
    {b : Bracket} (hb : s.reads c = some b) : ¬ b.Plausible := by
  intro hplausible
  rw [remeasure] at h
  rw [State.reads] at hb
  split at h
  · rename_i hperiod
    rw [if_pos hperiod] at hb
    have hmin := hplausible.1
    simp only [hb, measured_eq_mean hplausible] at h
    omega
  · rename_i hperiod
    exact hperiod h

/-- **A change by plausible readings**: it is a correction when nothing has wrapped. -/
theorem corrected_adjust_iff {b : Bracket} (hb : b.Plausible) (c : Call) :
    Corrected c (adjust (b.rest / 8 : ℕ) c.vi) (some b) ↔ Unwrapped b c.vi := by
  have hpos : 0 < b.rest / 8 := by
    have hmin := hb.1
    omega
  by_cases hx : c.vi.xres = 0
  · have hsame : adjust (b.rest / 8 : ℕ) c.vi = c.vi.pixclock := by simp [adjust, hx]
    exact iff_of_true (fun hne => absurd hsame hne) fun _ hx' => absurd hx hx'
  by_cases hy : c.vi.yres = 0
  · have hsame : adjust (b.rest / 8 : ℕ) c.vi = c.vi.pixclock := by simp [adjust, hy]
    exact iff_of_true (fun hne => absurd hsame hne) fun _ _ hy' => absurd hy hy'
  obtain ⟨htaken, hleft⟩ := adjust_eq hpos hx hy
  by_cases htakes : c.vi.Takes (quotient (b.rest / 8) c.vi % 2 ^ 32)
  · have hnew := htaken htakes
    have hchanged : adjust (b.rest / 8 : ℕ) c.vi ≠ c.vi.pixclock := by
      intro heq
      rw [heq] at hnew
      exact htakes.2.2 hnew.symm
    constructor
    · intro h _ _ _ _
      obtain ⟨b', hb', hmin, hmax, hfloor⟩ := h hchanged
      cases hb'
      have hrest : b.rest = b.elapsed := Nat.mod_eq_of_lt (by omega)
      rw [quotient_spec _ hx hy, hnew, ← hrest] at hfloor
      exact ⟨by omega, by omega⟩
    · intro h _
      obtain ⟨helapsed, hquotient⟩ := h hb hx hy htakes
      have hrest : b.rest = b.elapsed := Nat.mod_eq_of_lt helapsed
      refine ⟨b, rfl, by have := hb.1; omega, by have := hb.2; omega, ?_⟩
      rw [quotient_spec _ hx hy, hnew, ← hrest, Nat.mod_eq_of_lt hquotient]
  · exact iff_of_true (fun hne => absurd (hleft htakes) hne) fun _ _ _ ht => absurd ht htakes

/-- **When a call is right.** -/
theorem corrected_iff {s t : State} {c : Call} {px : UInt32} {r : Option Bracket} (h : Inv s)
    (hstep : step s c = some (t, px, r)) : (Corrected c px r ↔ Sound s c) ∧ Inv t := by
  simp only [step, Option.some.injEq, Prod.mk.injEq] at hstep
  obtain ⟨rfl, rfl, rfl⟩ := hstep
  rw [a1000FixVsyncPeriod]
  by_cases hreq : c.vscreeninfo = true
  · rw [if_neg (not_not.mpr hreq)]
    by_cases hon : s.on.getD c.truefps = true
    · have hinv : Inv { s with on := some (s.on.getD c.truefps) } := h
      have hreads : { s with on := some (s.on.getD c.truefps) }.reads c = s.reads c := rfl
      have hsound : Sound s c ↔ ∀ b, s.reads c = some b → Unwrapped b c.vi := by
        simp only [Sound, hreq, hon, forall_const]
      rw [hsound, ← hreads]
      generalize hu : { s with on := some (s.on.getD c.truefps) } = u at hinv
      have huon : u.on ≠ some false := by
        rw [← hu, hon]
        exact fun h => Bool.noConfusion (Option.some.inj h)
      simp only [huon, if_false]
      refine ⟨?_, hinv.remeasure c⟩
      rw [readings_remeasure]
      rcases hinv.remeasure c with hnone | ⟨b, hread, hb, hperiod⟩
      · have hsame : adjust (remeasure c u).period c.vi = c.vi.pixclock := by
          rw [adjust, if_pos (.inl hnone)]
        exact iff_of_true (fun hne => absurd hsame hne)
          fun b hb hplausible => absurd hplausible (not_plausible_of_period_le hnone hb)
      · rw [readings_remeasure] at hread
        rw [hread, hperiod, corrected_adjust_iff hb]
        simp only [Option.some.injEq, forall_eq']
    · have hoff : some (s.on.getD c.truefps) = some false := by simpa using hon
      simp only [hoff, if_true]
      exact ⟨iff_of_true (fun hne => absurd rfl hne) fun _ hon' => absurd hon' hon, h⟩
  · rw [if_pos hreq]
    exact ⟨iff_of_true (fun hne => absurd rfl hne) fun hreq' => absurd hreq' hreq, h⟩

/-! ### Every run -/

/-- **In which runs every change of `pixclock` is right**: those in which nothing has wrapped where
it is changed. -/
theorem pixclock_faithful_iff {tr : List (Call × UInt32 × Option Bracket)} {s : State}
    (h : Run step start tr s) :
    Always (fun _ c o => Corrected c o.1 o.2) tr ↔ RunWhere step Sound start tr s := by
  refine h.always_iff ?_
  intro tr s c t o hrun hstep
  have hinv : Inv s := hrun.invariant (P := fun _ s => Inv s) inv_start
    fun h _ next => (corrected_iff h next).2
  exact (corrected_iff hinv hstep).1

/-- The stock panel: 480 by 800, and the 60 Hz that were asked for. -/
def stockPanel : ScreenInfo := ⟨480, 800, 43402⟩

/-- Readings that are `ns` nanoseconds apart. -/
def apart (s n : ℕ) (hs : s < 2 ^ 31) (hn : n < 10 ^ 9) : Bracket where
  t₀ := ⟨0, 0, by decide, by decide⟩
  t₁ := ⟨s, n, hs, hn⟩
  le := by simp [Timespec.ns]

/-- A call that takes 8 periods of 16 ms. -/
def sixteenMs : Call := ⟨true, true, some (apart 0 128000000 (by decide) (by decide)), stockPanel⟩

/-- A call whose waits have taken 4.43 s, of which 32 bits leave 135 ms. -/
def fourSeconds : Call :=
  ⟨true, true, some (apart 4 430000000 (by decide) (by decide)), stockPanel⟩

/-- Eight periods of 16 ms, measured in the first call and used in the second. -/
theorem pixclock_faithful_iff_twice :
    ∃ tr s, Run step start tr s ∧ tr.map (fun e => e.2.1) = [41666, 41666] ∧
      Always (fun _ c o => Corrected c o.1 o.2) tr := by
  have hunwrapped : Unwrapped (apart 0 128000000 (by decide) (by decide)) stockPanel :=
    fun _ _ _ _ => ⟨by decide, by decide⟩
  have hone : ∀ s : State, s.reads sixteenMs = sixteenMs.waits → Sound s sixteenMs := by
    intro s hreads _ _ b hb
    rw [hreads] at hb
    cases hb
    exact hunwrapped
  have hrun : RunWhere step Sound start _ _ :=
    (RunWhere.nil.snoc (hone start rfl) rfl).snoc (i := sixteenMs) (hone _ rfl) rfl
  exact ⟨_, _, hrun.run, by decide +kernel, (pixclock_faithful_iff hrun.run).mpr hrun⟩

/-- The waits that have taken 4.43 s pass for eight periods of 16.9 ms. -/
theorem pixclock_faithful_not_always :
    ¬ ∀ (tr : List (Call × UInt32 × Option Bracket)) (s : State), Run step start tr s →
      Always (fun _ c o => Corrected c o.1 o.2) tr := by
  intro hall
  have hrun : Run step start [(fourSeconds, 43955, fourSeconds.waits)]
      ⟨16879088, some true, fourSeconds.waits⟩ :=
    RunWhere.nil.snoc trivial (by decide +kernel)
  have hcorrected := (@always_snoc _ _ _ [] _ _).mp (hall _ _ hrun)
  obtain ⟨b, hb, -, hmax, -⟩ := hcorrected.2 (by decide)
  cases hb
  revert hmax
  decide

end Pixclock

end A1000
