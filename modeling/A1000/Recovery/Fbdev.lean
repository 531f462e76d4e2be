import A1000.Lib.Run
import Mathlib.Tactic.Ring

/-!
# The framebuffer back end of the recovery

`minui` draws into one of two buffers that lie one after the other in the framebuffer, and asks the
driver to scan out the other one. It reads back whether the driver has obeyed; if not, it draws into
memory from then on and copies each frame into the first buffer.

The memory is told row by row, and the screen shows as many rows as a buffer has, from the row on
where the driver scans. The driver is an input: it may reject a request, accept it as it is or with
another offset, and tell of that in the structure it was given or not.

## Main definitions

* `Recovery.setDisplayedFramebuffer`, `Recovery.init`, `Recovery.flip` — the back end
* `Recovery.step` — `Init` once, and then frames that are drawn and flipped
* `Recovery.Handed.Apart` — what has been handed out for drawing is not on screen
* `Recovery.Answers.outcome` — where the driver scans after its answers, and what it has told of
* `Recovery.Backend.Clear` — the condition on these answers

## Main results

* `Recovery.apart_iff` — no surface that is handed out is visible exactly if the answers are clear
-/

namespace A1000

namespace Recovery

open StepSystem

/-! ### The driver -/

/-- `fb_var_screeninfo`, as far as the back end changes it. -/
structure VarScreeninfo where
  yoffset : ℕ
  yresVirtual : ℕ
  bitsPerPixel : ℕ

/-- What the driver says of the screen at the start. -/
structure Device where
  yres : ℕ
  lineLength : ℕ
  smemLen : ℕ
  vi : VarScreeninfo
  pos : 0 < yres

/-- What the driver does with a request to scan from an offset. -/
inductive Answer
  | rejected
  | accepted
  /-- It scans from another offset, and writes that back. -/
  | adjusted (y : ℕ)
  /-- It scans from another offset, and does not tell. -/
  | elsewhere (y : ℕ)
  deriving DecidableEq

/-- What happens around one call of `SetDisplayedFramebuffer`: the answers to
`FBIOPUT_VSCREENINFO` and `FBIOPAN_DISPLAY` with some offset, whether `FBIOGET_VSCREENINFO` succeeds
and the two allocations, and the answer to the last `FBIOPAN_DISPLAY`. -/
structure Answers where
  put : ℕ → Answer
  pan : ℕ → Answer
  get : Bool
  allocSurface : Bool
  allocData : Bool
  last : ℕ → Answer

/-- Everything succeeds that may, and the driver tells of every offset that it adjusts. -/
def Answers.Told (a : Answers) : Prop :=
  a.get = true ∧ a.allocSurface = true ∧ a.allocData = true ∧
    ∀ want y, a.put want ≠ .elsewhere y ∧ a.pan want ≠ .elsewhere y ∧ a.last want ≠ .elsewhere y

/-! ### The back end -/

/-- `gr_framebuffer + n`, or the surface in memory. -/
inductive Surface
  | buffer (n : ℕ)
  | memory
  deriving DecidableEq

/-- The fields of the back end, the rows of the framebuffer and of the surface in memory, and the
row from which the driver scans. -/
structure Backend (α : Type) where
  height : ℕ
  pixelBytes : ℕ
  vi : VarScreeninfo
  doubleBuffered : Bool
  displayedBuffer : ℕ
  grDraw : Surface
  fb : ℕ → α
  mem : ℕ → α
  scan : ℕ

variable {α : Type}

/-- A request, with the offset that `vi` holds. -/
def Backend.ioctl (s : Backend α) (answer : ℕ → Answer) : Backend α :=
  match answer s.vi.yoffset with
  | .rejected => s
  | .accepted => { s with scan := s.vi.yoffset }
  | .adjusted y => { s with scan := y, vi := { s.vi with yoffset := y } }
  | .elsewhere y => { s with scan := y }

/-- The requests for the buffer `n`; `needsPan` is `BOARD_RECOVERY_NEEDS_FBIOPAN_DISPLAY`. -/
def Backend.request (needsPan : Bool) (n : ℕ) (a : Answers) (s : Backend α) : Backend α :=
  let yresVirtual :=
    if s.vi.yresVirtual < s.height * 2 then s.height * 2 else s.vi.yresVirtual
  let s := { s with vi := ⟨n * s.height, yresVirtual, s.pixelBytes * 8⟩ }
  let s := s.ioctl a.put
  if needsPan then s.ioctl a.pan else s

/-- The offset that is read back is not the one in `vi`, and there is memory for a surface. -/
def Backend.FallsBack (a : Answers) (s : Backend α) : Prop :=
  a.get = true ∧ s.scan ≠ s.vi.yoffset ∧ a.allocSurface = true ∧ a.allocData = true

instance (a : Answers) (s : Backend α) : Decidable (s.FallsBack a) :=
  inferInstanceAs (Decidable (_ ∧ _))

/-- `SetDisplayedFramebuffer`. -/
def setDisplayedFramebuffer (needsPan : Bool) (zero : α) (n : ℕ) (a : Answers) (s : Backend α) :
    Backend α :=
  if n > 1 ∨ s.doubleBuffered = false then s
  else
    let s := s.request needsPan n a
    if s.FallsBack a then
      let s := { s with
        mem := fun _ => zero
        doubleBuffered := false
        grDraw := .memory
        vi := { s.vi with yoffset := 0 } }
      { s.ioctl a.last with displayedBuffer := 0 }
    else { s with displayedBuffer := n }

/-- Why `Init` gives no surface; the pointer to the surface is not checked. -/
inductive InitError
  | noDevice
  | noMemory
  | nullSurface

/-- There is room for two buffers; the product is one of 32 bits. -/
def Device.twoBuffers (d : Device) : Bool :=
  d.yres * d.lineLength % 2 ^ 32 * 2 % 2 ^ 32 ≤ d.smemLen

/-- The back end when `Init` asks for the first buffer. -/
def opened (zero : α) (d : Device) : Backend α where
  height := d.yres
  pixelBytes := d.vi.bitsPerPixel / 8
  vi := d.vi
  doubleBuffered := d.twoBuffers
  displayedBuffer := 0
  grDraw := if d.twoBuffers then .buffer 1 else .memory
  fb := fun _ => zero
  mem := fun _ => zero
  scan := d.vi.yoffset

/-- `Init`; there is no device when it cannot be opened, asked or mapped. -/
def init (needsPan : Bool) (zero : α) (device : Option Device) (a : Answers) :
    Except InitError (Backend α) :=
  match device with
  | none => .error .noDevice
  | some d =>
    if d.twoBuffers = false ∧ a.allocSurface = false then .error .nullSurface
    else if d.twoBuffers = false ∧ a.allocData = false then .error .noMemory
    else .ok (setDisplayedFramebuffer needsPan zero 0 a (opened zero d))

/-- `Flip`. -/
def flip (needsPan : Bool) (zero : α) (a : Answers) (s : Backend α) : Backend α :=
  if s.doubleBuffered then
    setDisplayedFramebuffer needsPan zero (1 - s.displayedBuffer) a
      { s with grDraw := .buffer s.displayedBuffer }
  else { s with fb := fun i => if i < s.height then s.mem i else s.fb i }

/-! ### Drawing and showing -/

/-- The rows of a surface. -/
def Backend.row (s : Backend α) : Surface → ℕ → α
  | .buffer n, i => s.fb (n * s.height + i)
  | .memory, i => s.mem i

/-- The caller fills the surface it was given. -/
def Backend.draw (frame : ℕ → α) (s : Backend α) : Backend α :=
  match s.grDraw with
  | .buffer n =>
    { s with fb := fun i =>
        if n * s.height ≤ i ∧ i < n * s.height + s.height then frame (i - n * s.height)
        else s.fb i }
  | .memory => { s with mem := fun i => if i < s.height then frame i else s.mem i }

/-- What a call hands out: the surface, where the driver scans, the rows the caller had finished
before, and the rows on screen. -/
structure Handed (α : Type) where
  height : ℕ
  surface : Surface
  scan : ℕ
  finished : ℕ → α
  shown : ℕ → α

/-- What is handed out after a call; `before` is the state before it. -/
def Backend.handed (before s : Backend α) : Handed α where
  height := s.height
  surface := s.grDraw
  scan := s.scan
  finished := before.row before.grDraw
  shown := fun i => s.fb (s.scan + i)

/-- `Init`, and a frame that is drawn and flipped. -/
inductive Call (α : Type)
  | init (device : Option Device) (answers : Answers)
  | flip (frame : ℕ → α) (answers : Answers)

/-- One call. There is no back end before `Init`, and none after it has failed. -/
def step (needsPan : Bool) (zero : α) :
    Option (Backend α) → Call α → Option (Option (Backend α) × Option (Handed α))
  | none, .init device a =>
    match init needsPan zero device a with
    | .error _ => some (none, none)
    | .ok s => some (some s, some (s.handed s))
  | some s, .flip frame a =>
    let drawn := s.draw frame
    let t := flip needsPan zero a drawn
    some (some t, some (drawn.handed t))
  | _, _ => none

/-! ### What is wanted -/

/-- **What has been handed out is not on screen.** -/
def Handed.Apart (o : Handed α) : Prop :=
  match o.surface with
  | .memory => True
  | .buffer n => ∀ i, n * o.height ≤ i → i < n * o.height + o.height →
      ¬ (o.scan ≤ i ∧ i < o.scan + o.height)

/-- Where the driver scans after its answer, if it has scanned from `scan` before. -/
def Answer.scan (scan want : ℕ) : Answer → ℕ
  | .rejected => scan
  | .accepted => want
  | .adjusted y => y
  | .elsewhere y => y

/-- The offset that it tells of. -/
def Answer.told (want : ℕ) : Answer → ℕ
  | .adjusted y => y
  | _ => want

/-- Where the driver scans after its answers to the requests for an offset, and the offset that it
has told of. -/
def Answers.outcome (a : Answers) (needsPan : Bool) (scan want : ℕ) : ℕ × ℕ :=
  let put := ((a.put want).scan scan want, (a.put want).told want)
  if needsPan then ((a.pan put.2).scan put.1 put.2, (a.pan put.2).told put.2) else put

/-- The two differ, which can be read back, and there is memory for a surface. -/
def Answers.Noticed (a : Answers) (outcome : ℕ × ℕ) : Prop :=
  a.get = true ∧ outcome.1 ≠ outcome.2 ∧ a.allocSurface = true ∧ a.allocData = true

instance (a : Answers) (outcome : ℕ × ℕ) : Decidable (a.Noticed outcome) :=
  inferInstanceAs (Decidable (_ ∧ _))

/-- The answers to the requests for the buffer `n` are clear: the driver scans from another offset
than it has told of, which is noticed, or it scans from above or below the other buffer. -/
def Backend.Clear (needsPan : Bool) (n : ℕ) (a : Answers) (s : Backend α) : Prop :=
  s.doubleBuffered = true →
    let outcome := a.outcome needsPan s.scan (n * s.height)
    a.Noticed outcome ∨ outcome.1 + s.height ≤ (1 - n) * s.height ∨
      (1 - n) * s.height + s.height ≤ outcome.1

/-- The condition on a call. -/
def CallClear (needsPan : Bool) (zero : α) : Option (Backend α) → Call α → Prop
  | none, .init (some d) a => (opened zero d).Clear needsPan 0 a
  | some s, .flip _ a => s.Clear needsPan (1 - s.displayedBuffer) a
  | _, _ => True

instance (needsPan : Bool) (n : ℕ) (a : Answers) (s : Backend α) :
    Decidable (s.Clear needsPan n a) :=
  inferInstanceAs (Decidable (_ → _))

instance (needsPan : Bool) (zero : α) :
    (x : Option (Backend α)) → (c : Call α) → Decidable (CallClear needsPan zero x c)
  | none, .init (some d) a => inferInstanceAs (Decidable ((opened zero d).Clear needsPan 0 a))
  | some s, .flip _ a => inferInstanceAs (Decidable (s.Clear needsPan (1 - s.displayedBuffer) a))
  | none, .init none _ => .isTrue trivial
  | none, .flip _ _ => .isTrue trivial
  | some _, .init _ _ => .isTrue trivial

/-! ### What a request leaves alone -/

section Frame

variable (s : Backend α) (answer : ℕ → Answer) (needsPan : Bool) (n : ℕ) (a : Answers)

theorem scan_ioctl :
    (s.ioctl answer).scan = (answer s.vi.yoffset).scan s.scan s.vi.yoffset := by
  rw [Backend.ioctl]
  cases answer s.vi.yoffset <;> rfl

theorem yoffset_ioctl :
    (s.ioctl answer).vi.yoffset = (answer s.vi.yoffset).told s.vi.yoffset := by
  rw [Backend.ioctl]
  cases answer s.vi.yoffset <;> rfl

/-- The requests have the outcome that the answers say. -/
theorem outcome_eq : a.outcome needsPan s.scan (n * s.height) =
    ((s.request needsPan n a).scan, (s.request needsPan n a).vi.yoffset) := by
  cases needsPan with
  | false =>
    show _ = ((Backend.ioctl _ a.put).scan, (Backend.ioctl _ a.put).vi.yoffset)
    rw [scan_ioctl, yoffset_ioctl]
    rfl
  | true =>
    show _ = ((Backend.ioctl (Backend.ioctl _ a.put) a.pan).scan,
      (Backend.ioctl (Backend.ioctl _ a.put) a.pan).vi.yoffset)
    simp only [scan_ioctl, yoffset_ioctl]
    rfl

theorem noticed_iff : a.Noticed (a.outcome needsPan s.scan (n * s.height)) ↔
    (s.request needsPan n a).FallsBack a := by
  rw [outcome_eq]
  rfl

theorem ioctl_eq :
    ∃ y z, s.ioctl answer = { s with scan := y, vi := { s.vi with yoffset := z } } := by
  rw [Backend.ioctl]
  cases answer s.vi.yoffset with
  | rejected => exact ⟨s.scan, s.vi.yoffset, rfl⟩
  | accepted => exact ⟨s.vi.yoffset, s.vi.yoffset, rfl⟩
  | adjusted y => exact ⟨y, y, rfl⟩
  | elsewhere y => exact ⟨y, s.vi.yoffset, rfl⟩

/-- A request changes `vi`, and where the driver scans. -/
theorem request_eq : ∃ y vi, s.request needsPan n a = { s with scan := y, vi := vi } := by
  simp only [Backend.request]
  generalize (if s.vi.yresVirtual < s.height * 2 then s.height * 2 else s.vi.yresVirtual) = v
  obtain ⟨y, z, hput⟩ := ioctl_eq { s with vi := ⟨n * s.height, v, s.pixelBytes * 8⟩ } a.put
  rw [hput]
  cases needsPan with
  | false => exact ⟨y, _, rfl⟩
  | true =>
    obtain ⟨y', z', hpan⟩ := ioctl_eq
      { s with scan := y, vi := ⟨z, v, s.pixelBytes * 8⟩ } a.pan
    exact ⟨y', _, hpan⟩

/-- The rows, and the surface that is drawn into, do not matter to a request. -/
theorem ioctl_with (fb mem : ℕ → α) (g : Surface) :
    { s with fb := fb, mem := mem, grDraw := g }.ioctl answer =
      { s.ioctl answer with fb := fb, mem := mem, grDraw := g } := by
  simp only [Backend.ioctl]
  cases answer s.vi.yoffset <;> rfl

theorem request_with (fb mem : ℕ → α) (g : Surface) :
    { s with fb := fb, mem := mem, grDraw := g }.request needsPan n a =
      { s.request needsPan n a with fb := fb, mem := mem, grDraw := g } := by
  simp only [Backend.request]
  generalize (if s.vi.yresVirtual < s.height * 2 then s.height * 2 else s.vi.yresVirtual) = v
  rw [ioctl_with { s with vi := ⟨n * s.height, v, s.pixelBytes * 8⟩ } a.put fb mem g]
  cases needsPan with
  | false => rfl
  | true => exact ioctl_with _ a.pan fb mem g

end Frame

/-! ### What `SetDisplayedFramebuffer` does -/

/-- What the back end keeps: with two buffers it draws into the one that it believes not to be
displayed, and otherwise into memory. -/
structure Backend.Ready (s : Backend α) : Prop where
  pos : 0 < s.height
  double : s.doubleBuffered = true →
    s.displayedBuffer ≤ 1 ∧ s.grDraw = .buffer (1 - s.displayedBuffer)
  single : s.doubleBuffered = false → s.grDraw = .memory

/-- **What `SetDisplayedFramebuffer` does with two buffers**: it falls back to memory, or displays
the buffer it was asked for. -/
theorem setDisplayedFramebuffer_cases {s : Backend α} (hs : s.doubleBuffered = true)
    (needsPan : Bool) (zero : α) {n : ℕ} (hn : n ≤ 1) (a : Answers) :
    let t := setDisplayedFramebuffer needsPan zero n a s
    let asked := s.request needsPan n a
    t.height = s.height ∧ t.fb = s.fb ∧
      (asked.FallsBack a ∧ t.doubleBuffered = false ∧ t.grDraw = .memory ∧
          t.scan = (a.last 0).scan asked.scan 0 ∨
        ¬ asked.FallsBack a ∧ t.doubleBuffered = true ∧ t.grDraw = s.grDraw ∧
          t.displayedBuffer = n ∧ t.scan = asked.scan) := by
  have hguard : ¬ (n > 1 ∨ s.doubleBuffered = false) := by
    rw [hs]
    simp
    omega
  obtain ⟨y, vi, hreq⟩ := request_eq s needsPan n a
  simp only [setDisplayedFramebuffer, if_neg hguard]
  by_cases hfall : (s.request needsPan n a).FallsBack a
  · rw [if_pos hfall]
    obtain ⟨y', z', hlast⟩ := ioctl_eq
      { s.request needsPan n a with
        mem := fun _ => zero
        doubleBuffered := false
        grDraw := .memory
        vi := { (s.request needsPan n a).vi with yoffset := 0 } } a.last
    refine ⟨by rw [hlast, hreq], by rw [hlast, hreq],
      .inl ⟨hfall, by rw [hlast], by rw [hlast], ?_⟩⟩
    exact scan_ioctl _ a.last
  · rw [if_neg hfall]
    refine ⟨by rw [hreq], by rw [hreq], .inr ⟨hfall, ?_, by rw [hreq], rfl, rfl⟩⟩
    rw [hreq]
    exact hs

theorem setDisplayedFramebuffer_of_single {s : Backend α} (hs : s.doubleBuffered = false)
    (needsPan : Bool) (zero : α) (n : ℕ) (a : Answers) :
    setDisplayedFramebuffer needsPan zero n a s = s :=
  if_pos (.inr hs)

/-- What is left ready by `SetDisplayedFramebuffer`, when it is about the buffer that is not drawn
into next. -/
theorem ready_setDisplayedFramebuffer {s : Backend α} (hs : s.doubleBuffered = true)
    (hpos : 0 < s.height) {n : ℕ} (hn : n ≤ 1) (hdraw : s.grDraw = .buffer (1 - n))
    (needsPan : Bool) (zero : α) (a : Answers) :
    (setDisplayedFramebuffer needsPan zero n a s).Ready := by
  obtain ⟨hheight, -, ⟨-, hd, hg, -⟩ | ⟨-, hd, hg, hdisplayed, -⟩⟩ :=
    setDisplayedFramebuffer_cases hs needsPan zero hn a
  · exact ⟨hheight ▸ hpos, fun h => by simp [hd] at h, fun _ => hg⟩
  · refine ⟨hheight ▸ hpos, fun _ => ?_, fun h => by simp [hd] at h⟩
    rw [hg, hdraw, hdisplayed]
    exact ⟨hn, rfl⟩

/-! ### Runs -/

theorem draw_eq (s : Backend α) (frame : ℕ → α) :
    ∃ fb mem, s.draw frame = { s with fb := fb, mem := mem } := by
  rw [Backend.draw]
  cases s.grDraw with
  | buffer n => exact ⟨_, s.mem, rfl⟩
  | memory => exact ⟨s.fb, _, rfl⟩

/-- A flip in memory. -/
theorem flip_of_single {s : Backend α} (hs : s.doubleBuffered = false) (needsPan : Bool) (zero : α)
    (a : Answers) :
    flip needsPan zero a s =
      { s with fb := fun i => if i < s.height then s.mem i else s.fb i } :=
  if_neg (by simp [hs])

/-- A flip with two buffers. -/
theorem flip_of_double {s : Backend α} (hs : s.doubleBuffered = true) (needsPan : Bool) (zero : α)
    (a : Answers) :
    flip needsPan zero a s = setDisplayedFramebuffer needsPan zero (1 - s.displayedBuffer) a
      { s with grDraw := .buffer s.displayedBuffer } :=
  if_pos hs

theorem Backend.Ready.draw {s : Backend α} (h : s.Ready) (frame : ℕ → α) :
    (s.draw frame).Ready := by
  obtain ⟨fb, mem, hdraw⟩ := draw_eq s frame
  rw [hdraw]
  exact ⟨h.pos, h.double, h.single⟩

theorem Backend.Ready.flip {s : Backend α} (h : s.Ready) (needsPan : Bool) (zero : α)
    (a : Answers) : (flip needsPan zero a s).Ready := by
  cases hs : s.doubleBuffered with
  | false =>
    rw [flip_of_single hs]
    exact ⟨h.pos, h.double, h.single⟩
  | true =>
    obtain ⟨hle, -⟩ := h.double hs
    have hother : s.displayedBuffer = 1 - (1 - s.displayedBuffer) := by omega
    rw [flip_of_double hs]
    exact ready_setDisplayedFramebuffer (s := { s with grDraw := .buffer s.displayedBuffer }) hs
      h.pos (Nat.sub_le 1 _) (congrArg Surface.buffer hother) needsPan zero a

theorem ready_opened {zero : α} {d : Device} (needsPan : Bool) (a : Answers) :
    (setDisplayedFramebuffer needsPan zero 0 a (opened zero d)).Ready := by
  cases hd : d.twoBuffers with
  | true =>
    exact ready_setDisplayedFramebuffer (s := opened zero d) hd d.pos (Nat.zero_le 1)
      (by simp [opened, hd]) needsPan zero a
  | false =>
    rw [setDisplayedFramebuffer_of_single (s := opened zero d) hd]
    exact ⟨d.pos, fun h => by simp [opened, hd] at h, fun _ => by simp [opened, hd]⟩

/-- What a call does, in the words of the back end. -/
theorem step_cases {needsPan : Bool} {zero : α} {x y : Option (Backend α)} {c : Call α}
    {o : Option (Handed α)} (h : step needsPan zero x c = some (y, o)) :
    (x = none ∧ y = none ∧ o = none ∧
      ∀ d a, c = .init (some d) a → d.twoBuffers = false) ∨
    (∃ d a, x = none ∧ c = .init (some d) a ∧
      let s := setDisplayedFramebuffer needsPan zero 0 a (opened zero d)
      y = some s ∧ o = some (s.handed s)) ∨
    (∃ s frame a, x = some s ∧ c = .flip frame a ∧
      let t := flip needsPan zero a (s.draw frame)
      y = some t ∧ o = some ((s.draw frame).handed t)) := by
  cases x with
  | none =>
    cases c with
    | flip frame a => cases h
    | init device a =>
      cases device with
      | none =>
        obtain ⟨rfl, rfl⟩ := Prod.mk.inj (Option.some.inj h)
        exact .inl ⟨rfl, rfl, rfl, fun _ _ hc => by cases hc⟩
      | some d =>
        simp only [step, init] at h
        split_ifs at h with hnull hnone
        · obtain ⟨rfl, rfl⟩ := Prod.mk.inj (Option.some.inj h)
          exact .inl ⟨rfl, rfl, rfl, fun _ _ hc => by cases hc; exact hnull.1⟩
        · obtain ⟨rfl, rfl⟩ := Prod.mk.inj (Option.some.inj h)
          exact .inl ⟨rfl, rfl, rfl, fun _ _ hc => by cases hc; exact hnone.1⟩
        · obtain ⟨rfl, rfl⟩ := Prod.mk.inj (Option.some.inj h)
          exact .inr (.inl ⟨d, a, rfl, rfl, rfl, rfl⟩)
  | some s =>
    cases c with
    | init device a => cases h
    | flip frame a =>
      obtain ⟨rfl, rfl⟩ := Prod.mk.inj (Option.some.inj h)
      exact .inr (.inr ⟨s, frame, a, rfl, rfl, rfl, rfl⟩)

/-- **Every back end that a run reaches is ready.** -/
theorem ready_of_run {needsPan : Bool} {zero : α} {D : Option (Backend α) → Call α → Prop}
    {tr : List (Call α × Option (Handed α))} {x : Option (Backend α)}
    (h : RunWhere (step needsPan zero) D none tr x) : ∀ s, x = some s → s.Ready := by
  induction h with
  | nil => simp
  | snoc _ _ next ih =>
    rcases step_cases next with
      ⟨-, rfl, -, -⟩ | ⟨d, a, -, -, rfl, -⟩ | ⟨s, frame, a, hs, -, rfl, -⟩
    · simp
    · rintro s ⟨⟩
      exact ready_opened needsPan a
    · rintro t ⟨⟩
      exact ((ih s hs).draw frame).flip needsPan zero a

/-! ### What is handed out -/

/-- A buffer is off the screen when all of it lies above or below. -/
theorem Handed.apart_buffer_iff {o : Handed α} (hpos : 0 < o.height) {m : ℕ}
    (ho : o.surface = .buffer m) :
    o.Apart ↔ o.scan + o.height ≤ m * o.height ∨ m * o.height + o.height ≤ o.scan := by
  rw [Handed.Apart, ho]
  constructor
  · intro h
    by_contra hnot
    -- the row at which the later of the two begins lies in both
    have hlow := h (max (m * o.height) o.scan) (le_max_left _ _)
    omega
  · intro h i hle hlt
    omega

theorem Handed.apart_memory {o : Handed α} (ho : o.surface = .memory) : o.Apart := by
  rw [Handed.Apart, ho]
  trivial

/-- **After `SetDisplayedFramebuffer`**, the other buffer is off the screen if and only if the
answers were clear. -/
theorem apart_iff_clear {s : Backend α} (hpos : 0 < s.height) {n : ℕ} (hn : n ≤ 1)
    (hdouble : s.doubleBuffered = true → s.grDraw = .buffer (1 - n))
    (hsingle : s.doubleBuffered = false → s.grDraw = .memory) (needsPan : Bool) (zero : α)
    (a : Answers) (before : Backend α) :
    (before.handed (setDisplayedFramebuffer needsPan zero n a s)).Apart ↔ s.Clear needsPan n a := by
  cases hs : s.doubleBuffered with
  | false =>
    rw [setDisplayedFramebuffer_of_single hs]
    exact iff_of_true (Handed.apart_memory (hsingle hs)) fun h => by simp [hs] at h
  | true =>
    obtain ⟨hheight, -, ⟨hfall, -, hg, -⟩ | ⟨hfall, -, hg, -, hscan⟩⟩ :=
      setDisplayedFramebuffer_cases hs needsPan zero hn a
    · exact iff_of_true (Handed.apart_memory hg) fun _ => .inl ((noticed_iff ..).mpr hfall)
    · have hpos' : 0 < (before.handed (setDisplayedFramebuffer needsPan zero n a s)).height := by
        rw [Backend.handed, hheight]
        exact hpos
      rw [Handed.apart_buffer_iff hpos' (hg.trans (hdouble hs))]
      simp only [Backend.handed, hheight, hscan, Backend.Clear, hs, forall_const, outcome_eq]
      exact (or_iff_right hfall).symm

/-- After a flip, likewise. -/
theorem apart_flip_iff {s : Backend α} (h : s.Ready) (needsPan : Bool) (zero : α)
    (frame : ℕ → α) (a : Answers) :
    ((s.draw frame).handed (flip needsPan zero a (s.draw frame))).Apart ↔
      s.Clear needsPan (1 - s.displayedBuffer) a := by
  obtain ⟨fb, mem, hdraw⟩ := draw_eq s frame
  cases hs : s.doubleBuffered with
  | false =>
    refine iff_of_true (Handed.apart_memory ?_) fun h => by simp [hs] at h
    rw [hdraw, flip_of_single (s := { s with fb := fb, mem := mem }) hs]
    exact h.single hs
  | true =>
    obtain ⟨hle, -⟩ := h.double hs
    have hother : s.displayedBuffer = 1 - (1 - s.displayedBuffer) := by omega
    rw [hdraw, flip_of_double (s := { s with fb := fb, mem := mem }) hs,
      apart_iff_clear (s := { s with
        fb := fb, mem := mem, grDraw := .buffer s.displayedBuffer })
      h.pos (Nat.sub_le 1 _) (fun _ => congrArg Surface.buffer hother) (fun h => by simp [hs] at h)]
    exact Iff.rfl

/-- With one buffer there is no condition on `Init`. -/
theorem clear_of_single {needsPan : Bool} {zero : α} {c : Call α}
    (h : ∀ d a, c = .init (some d) a → d.twoBuffers = false) :
    CallClear needsPan zero none c := by
  cases c with
  | flip => trivial
  | init device a =>
    cases device with
    | none => trivial
    | some d =>
      intro hdouble
      rw [opened, h d a rfl] at hdouble
      cases hdouble

/-- **No surface that is handed out is visible if and only if all answers are clear**, in every run
of `Init` and of frames that are drawn and flipped, against every driver. -/
theorem apart_iff {needsPan : Bool} {zero : α} {tr : List (Call α × Option (Handed α))}
    {x : Option (Backend α)} (h : Run (step needsPan zero) none tr x) :
    Always (fun _ _ o => ∀ out, o = some out → out.Apart) tr ↔
      RunWhere (step needsPan zero) (CallClear needsPan zero) none tr x := by
  refine Run.always_iff (fun hrun next => ?_) h
  rcases step_cases next with
    ⟨rfl, -, rfl, hsingle⟩ | ⟨d, a, rfl, rfl, -, rfl⟩ | ⟨s, frame, a, rfl, rfl, -, rfl⟩
  · refine iff_of_true (fun _ hout => by cases hout) (clear_of_single hsingle)
  · simp only [Option.some.injEq, forall_eq']
    exact apart_iff_clear (s := opened zero d) d.pos (Nat.zero_le 1)
      (fun h => by simpa [opened] using h) (fun h => by simpa [opened] using h) needsPan zero a _
  · have hready := ready_of_run hrun s rfl
    simp only [Option.some.injEq, forall_eq']
    exact apart_flip_iff hready needsPan zero frame a

/-! ### Two runs -/

/-- One row, and room for two of them. -/
def oneRow : Device := ⟨1, 4, 8, ⟨0, 2, 32⟩, by decide⟩

/-- The driver does what it is asked to, and there is memory. -/
def obeying : Answers :=
  ⟨fun _ => .accepted, fun _ => .accepted, true, true, true, fun _ => .accepted⟩

/-- A frame of nothing. -/
def blank (_ : ℕ) : Bool := false

/-- The driver takes each request for one for the first buffer, and says so. -/
def overruling : Answers := { obeying with put := fun _ => .adjusted 0 }

/-- Two frames on a driver that obeys. -/
theorem apart_obeying : ∃ tr x, tr.length = 3 ∧ Run (step true false) none tr x ∧
    Always (fun _ _ o => ∀ out, o = some out → out.Apart) tr := by
  obtain ⟨tr, x, hexec, hlen⟩ : ∃ tr x, exec (step true false) (CallClear true false) none
      [.init (some oneRow) obeying, .flip blank obeying, .flip blank obeying] = some (tr, x) ∧
        tr.length = 3 :=
    ⟨_, _, rfl, rfl⟩
  have hrun := run_of_exec hexec
  exact ⟨tr, x, hlen, hrun.run, (apart_iff hrun.run).mpr hrun⟩

/-- There is room for two buffers, and every answer is told of. -/
def Call.Told : Call α → Prop
  | .init device a => (∃ d, device = some d ∧ d.twoBuffers = true) ∧ a.Told
  | .flip _ a => a.Told

/-- A driver that shows the first buffer whatever it is asked for. -/
theorem apart_not_always :
    ¬ ∀ (needsPan zero : Bool) (tr : List (Call Bool × Option (Handed Bool)))
      (x : Option (Backend Bool)), RunWhere (step needsPan zero) (fun _ c => c.Told) none tr x →
        Always (fun _ _ o => ∀ out, o = some out → out.Apart) tr := by
  intro h
  have hinit : (Call.init (some oneRow) obeying : Call Bool).Told :=
    ⟨⟨oneRow, rfl, by decide⟩, by simp [Answers.Told, obeying]⟩
  have hflip : (Call.flip blank overruling).Told := by
    simp [Call.Told, Answers.Told, overruling, obeying]
  have hbad := h true false _ _
    (.snoc (i := .flip blank overruling)
      (.snoc (i := .init (some oneRow) obeying) .nil hinit rfl) hflip rfl) [_] _ _ [] rfl _ rfl
  exact hbad 0 (by decide) (by decide) (by decide)

end Recovery

end A1000
