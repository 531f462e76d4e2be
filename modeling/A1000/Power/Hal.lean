import A1000.Lib.Run

/-!
# The power HAL

`power_sc8830.c`: the module keeps one frequency window, `scaling_min_freq .. scaling_max_freq`,
in step with three inputs (the screen, the low-power mode and the current boost), and a thread
takes the boost back when its deadline has passed.

Every operation runs under the one mutex of the module, so an operation is one step here. A boost
reads the clock before it takes the mutex: that reading is part of the operation, and two boosts
may take the mutex in the other order.

## What is modelled

`applyLocked` writes only what changed, in the order raise the maximum, set the minimum, lower the
maximum. Every attempted write is recorded together with the window the kernel holds right after
it. Whether the `n`-th attempt of a run is accepted is given by an oracle `ok n`; a refused write
leaves the kernel as it was, while `cur_min` and `cur_max` are set either way, as in the source.

The deadline that `boost_thread_fn` computes for `pthread_cond_timedwait` only decides when the
thread looks again, so a wake-up may come at any time and finds either nothing to do or an expired
boost.
-/

namespace A1000

namespace Power

/-! ### Constants (kHz, ms) -/

def freqMin : Int := 768000
def freqInteractive : Int := 1000000
def freqLaunch : Int := 1200000
def freqMax : Int := 1300000
def freqMaxScreenOff : Int := 1000000
def freqMaxLowPower : Int := 1000000
def boostMsInteraction : Int := 800
def boostMsLaunch : Int := 2000

/-! ### State -/

/-- `struct a1000_power`, less its mutex, condition variable and thread. -/
structure A1000Power where
  screenOn : Bool
  lowPower : Bool
  /-- `0` when there is no boost. -/
  boostFreq : Int
  boostUntilMs : Int
  curMin : Int
  curMax : Int
  inited : Bool
  deriving DecidableEq, Repr

/-- The static initializer of `g_pwr`. -/
def gPwr : A1000Power where
  screenOn := true
  lowPower := false
  boostFreq := 0
  boostUntilMs := 0
  curMin := -1
  curMax := -1
  inited := false

/-- The two nodes under `/sys/devices/system/cpu/cpu0/cpufreq` the module writes. -/
inductive Node
  | cpufreqMin
  | cpufreqMax
  deriving DecidableEq, Repr

/-- The window the kernel holds. -/
structure Window where
  scalingMin : Int
  scalingMax : Int
  deriving DecidableEq, Repr

/-- The kernel takes a value. -/
def Window.set (k : Window) (value : Int) : Node → Window
  | .cpufreqMin => { k with scalingMin := value }
  | .cpufreqMax => { k with scalingMax := value }

/-- One attempted `write` on a node. -/
structure Write where
  node : Node
  value : Int
  accepted : Bool
  /-- The kernel's window right after the attempt. -/
  window : Window
  deriving DecidableEq, Repr

/-- The module, the kernel, and how many writes were attempted so far. -/
structure State where
  pwr : A1000Power
  kernel : Window
  attempts : ℕ
  deriving DecidableEq, Repr

/-! ### Writing -/

/-- `sysfs_write_int`: one attempt, accepted when the oracle says so. -/
def sysfsWriteInt (ok : ℕ → Bool) (node : Node) (value : Int) (s : State) : State × List Write :=
  let k := if ok s.attempts then s.kernel.set value node else s.kernel
  ({ s with kernel := k, attempts := s.attempts + 1 }, [⟨node, value, ok s.attempts, k⟩])

/-- A write to `CPUFREQ_MAX` with the assignment to `cur_max` after it. -/
def writeMax (ok : ℕ → Bool) (value : Int) (s : State) : State × List Write :=
  let r := sysfsWriteInt ok .cpufreqMax value s
  ({ r.1 with pwr := { r.1.pwr with curMax := value } }, r.2)

/-- A write to `CPUFREQ_MIN` with the assignment to `cur_min` after it. -/
def writeMin (ok : ℕ → Bool) (value : Int) (s : State) : State × List Write :=
  let r := sysfsWriteInt ok .cpufreqMin value s
  ({ r.1 with pwr := { r.1.pwr with curMin := value } }, r.2)

/-- The local `want_max` of `apply_locked`. -/
def wantMax (p : A1000Power) : Int :=
  let m := if !p.screenOn then freqMaxScreenOff else freqMax
  if p.lowPower ∧ m > freqMaxLowPower then freqMaxLowPower else m

/-- The local `want_min` of `apply_locked`: the boost, cut at `want_max`. -/
def wantMin (p : A1000Power) : Int :=
  let m := if p.boostFreq > 0 then p.boostFreq else freqMin
  if m > wantMax p then wantMax p else m

/-- The first conditional write of `apply_locked`: a maximum that grows. -/
def growMax (ok : ℕ → Bool) (hi : Int) (s : State) : State × List Write :=
  if hi > s.pwr.curMax then writeMax ok hi s else (s, [])

/-- The second: a minimum that changes. -/
def moveMin (ok : ℕ → Bool) (lo : Int) (s : State) : State × List Write :=
  if lo ≠ s.pwr.curMin then writeMin ok lo s else (s, [])

/-- The third: a maximum that shrinks. -/
def shrinkMax (ok : ℕ → Bool) (hi : Int) (s : State) : State × List Write :=
  if hi < s.pwr.curMax then writeMax ok hi s else (s, [])

/-- `apply_locked`: widen the window first, narrow it last. -/
def applyLocked (ok : ℕ → Bool) (s : State) : State × List Write :=
  let hi := wantMax s.pwr
  let lo := wantMin s.pwr
  let r₁ := growMax ok hi s
  let r₂ := moveMin ok lo r₁.1
  let r₃ := shrinkMax ok hi r₂.1
  (r₃.1, r₁.2 ++ r₂.2 ++ r₃.2)

/-! ### The operations -/

/-- One wake-up of `boost_thread_fn` at time `now`: the body of its loop, which either waits again
or, once the deadline has passed, drops the boost and goes back to waiting. -/
def boostThreadFn (ok : ℕ → Bool) (now : Int) (s : State) : State × List Write :=
  if s.pwr.boostFreq = 0 then (s, [])
  else if now ≥ s.pwr.boostUntilMs then
    applyLocked ok { s with pwr := { s.pwr with boostFreq := 0 } }
  else (s, [])

/-- `boost`, with the `now_ms()` it read before taking the mutex. -/
def boost (ok : ℕ → Bool) (freq durationMs now : Int) (s : State) : State × List Write :=
  let until_ := now + durationMs
  let p := s.pwr
  let p := if freq > p.boostFreq then { p with boostFreq := freq } else p
  let p := if until_ > p.boostUntilMs then { p with boostUntilMs := until_ } else p
  applyLocked ok { s with pwr := p }

/-- `a1000_power_init`: bring the policy to a known state, once. -/
def a1000PowerInit (ok : ℕ → Bool) (s : State) : State × List Write :=
  if !s.pwr.inited then
    let r₁ := sysfsWriteInt ok .cpufreqMax freqMax s
    let r₂ := sysfsWriteInt ok .cpufreqMin freqMin r₁.1
    ({ r₂.1 with pwr := { r₂.1.pwr with curMax := freqMax, curMin := freqMin, inited := true } },
      r₁.2 ++ r₂.2)
  else (s, [])

/-- `a1000_set_interactive`. -/
def a1000SetInteractive (ok : ℕ → Bool) (on : Bool) (s : State) : State × List Write :=
  let p := { s.pwr with screenOn := on }
  -- the screen went dark: no reason to keep a boost
  let p := if !on then { p with boostFreq := 0, boostUntilMs := 0 } else p
  applyLocked ok { s with pwr := p }

/-- `power_hint_t`, as far as `a1000_power_hint` tells its values apart. -/
inductive PowerHint
  | interaction
  | launch
  | lowPower
  | vsync
  | other (hint : ℕ)
  deriving DecidableEq, Repr

/-- `a1000_power_hint` with the time a boost reads and whether `data` is non-null. -/
def a1000PowerHint (ok : ℕ → Bool) (hint : PowerHint) (data : Bool) (now : Int) (s : State) :
    State × List Write :=
  match hint with
  | .interaction => boost ok freqInteractive boostMsInteraction now s
  | .launch => boost ok freqLaunch boostMsLaunch now s
  | .lowPower => applyLocked ok { s with pwr := { s.pwr with lowPower := data } }
  | .vsync => (s, [])
  | .other _ => (s, [])

/-- What can happen to the module. -/
inductive Op
  | init
  | setInteractive (on : Bool)
  | powerHint (hint : PowerHint) (data : Bool)
  | boostThread
  deriving DecidableEq, Repr

/-- One operation, at the time it reads the clock. -/
def runOp (ok : ℕ → Bool) (op : Op) (now : Int) (s : State) : State × List Write :=
  match op with
  | .init => a1000PowerInit ok s
  | .setInteractive on => a1000SetInteractive ok on s
  | .powerHint hint data => a1000PowerHint ok hint data now s
  | .boostThread => boostThreadFn ok now s

/-- The module as a step system: operations come in any order and at any times, and each gives
the writes it made. -/
def step (ok : ℕ → Bool) (s : State) (i : Op × Int) : Option (State × List Write) :=
  some (runOp ok i.1 i.2 s)

/-- The module after its first `a1000_power_init`, over a kernel that held any window. -/
def started (ok : ℕ → Bool) (k₀ : Window) : State :=
  (a1000PowerInit ok ⟨gPwr, k₀, 0⟩).1

/-! ### What an operation does to the inputs

Every operation but `init` sets some inputs and then calls `applyLocked`, or does nothing. The
inputs it sets are the same whatever the kernel answers. -/

/-- Drop the boost, as the thread does at the deadline. -/
def A1000Power.expire (now : Int) (p : A1000Power) : A1000Power :=
  if p.boostFreq ≠ 0 ∧ now ≥ p.boostUntilMs then { p with boostFreq := 0 } else p

/-- Merge a hint into the running boost. -/
def A1000Power.merge (freq until_ : Int) (p : A1000Power) : A1000Power :=
  { p with
    boostFreq := if freq > p.boostFreq then freq else p.boostFreq
    boostUntilMs := if until_ > p.boostUntilMs then until_ else p.boostUntilMs }

/-- The inputs after an operation, before `apply_locked` touches `cur_min` and `cur_max`. -/
def A1000Power.inputs (op : Op) (now : Int) (p : A1000Power) : A1000Power :=
  match op with
  | .init => { p with inited := true }
  | .setInteractive true => { p with screenOn := true }
  | .setInteractive false => { p with screenOn := false, boostFreq := 0, boostUntilMs := 0 }
  | .powerHint .interaction _ => p.merge freqInteractive (now + boostMsInteraction)
  | .powerHint .launch _ => p.merge freqLaunch (now + boostMsLaunch)
  | .powerHint .lowPower data => { p with lowPower := data }
  | .powerHint .vsync _ => p
  | .powerHint (.other _) _ => p
  | .boostThread => p.expire now

end Power

end A1000
