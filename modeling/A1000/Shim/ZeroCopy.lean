import A1000.Lib.Run
import A1000.Shim.Post

/-!
# Which frame is on the screen

When the zero-copy post returns 0 without the real `post`, the display controller should scan out
the buffer of that post. The short way does that. The long way, however, goes through
`SET_OVERLAY`, and there the interposed `ioctl` puts the first address it ever saw in the place of
the one it is given: a pin made for a process that presents through the hardware composer, where
only the first buffer is ever drawn into. The zero-copy post rotates three buffers, all drawn into.

So a post presents its own frame exactly when it does not go the long way while another address is
pinned. The second way to go wrong, that the device had no `post` to fall back to, cannot happen
with a device that gralloc opened.

## Main definitions

* `ZeroCopy.PresentsOwn` — a post that says it has presented its frame has
* `ZeroCopy.Agrees` — the pin is not in the way

## Main results

* `ZeroCopy.presents_own_iff` — a run presents every frame exactly when each of its posts agrees
  with the pin
-/

namespace A1000

namespace ZeroCopy

open Shim StepSystem

/-! ### The property and the condition -/

/-- Everything the posts have done, oldest first. -/
def history (tr : List (PostCall × Shown)) : List Act := tr.flatMap fun e => e.2.acts

/-- **A post presents its own frame.** If it returns 0 and has not called the real post, then the
last address the kernel has accepted is that of the buffer that was posted. -/
def PresentsOwn (want : UInt32) (tr : List (PostCall × Shown)) (c : PostCall) (out : Shown) :
    Prop :=
  out.ret = 0 → .realPost ∉ out.acts → ionPhys want c.handle ≠ 0 →
    lastAccepted (history tr ++ out.acts) = some (ionPhys want c.handle)

/-- Neither `gsp_nopin` nor `gsp_hwcolor` exists. -/
def defaultFiles (nocpucolor : Bool) : Files := ⟨false, none, nocpucolor⟩

/-- The post does not go the long way while another address is pinned; and if the device had no
`post`, the post does not fall back while another address is scanned out. -/
structure Agrees (s : Poster) (c : PostCall) : Prop where
  long : s.Ready c → ¬ s.Flips c → c.setOverlay = .ok →
    c.displayOverlay = .ok ∨ s.gRealPost = false →
      (s.gZcW.toUInt16 = 0 ∨ s.gZcH.toUInt16 = 0) ∨
        s.shim.pin = 0 ∨ s.shim.pin = ionPhys s.gZcFrame c.handle
  fell : (s.Ready c → ¬ s.Flips c ∧ c.setOverlay ≠ .ok) → s.gRealPost = false →
    ionPhys s.gZcFrame c.handle ≠ 0 → s.scanout = some (ionPhys s.gZcFrame c.handle)

@[simp] theorem history_nil : history [] = [] := rfl

@[simp] theorem history_snoc (tr : List (PostCall × Shown)) (c : PostCall) (out : Shown) :
    history (tr ++ [(c, out)]) = history tr ++ out.acts := by
  simp [history]

/-! ### One post -/

/-- A post that is ready knows the address of its buffer. -/
theorem physOf_of_ready {s : Poster} {c : PostCall} (h : s.Ready c) :
    (physOf c s.gZcFrame s).1 = ionPhys s.gZcFrame c.handle := by
  have hne := h.2
  simp only [physOf] at hne ⊢
  split_ifs at hne ⊢
  · exact absurd rfl hne
  · exact absurd rfl hne
  · rfl

/-- The long way presents the buffer unless another address is pinned. -/
theorem presents_eq_iff {b : Bool} {s : Poster} {phys : UInt32} (h : phys ≠ 0) :
    s.presents (defaultFiles b) phys = phys ↔
      (s.gZcW.toUInt16 = 0 ∨ s.gZcH.toUInt16 = 0) ∨ s.shim.pin = 0 ∨ s.shim.pin = phys := by
  have hosd : (overlaySetting phys s).ForOsd ↔ ¬ (s.gZcW.toUInt16 = 0 ∨ s.gZcH.toUInt16 = 0) := by
    simp [OvSetting.ForOsd, overlaySetting, h, not_or]
  simp only [Poster.presents, State.presents, hosd]
  by_cases hsize : s.gZcW.toUInt16 = 0 ∨ s.gZcH.toUInt16 = 0
  · simp [hsize, overlaySetting]
  · simp only [hsize, not_false_eq_true, if_true, false_or, State.pinned, defaultFiles,
      Bool.false_eq_true, if_false, overlaySetting]
    by_cases hpin : s.shim.pin = 0 <;> simp [hpin]

/-- Falling back calls the real post, or returns 0 as if the frame had been presented. -/
theorem presentsOwn_fallback {want : UInt32} {tr : List (PostCall × Shown)} {c : PostCall}
    {acts : List Act} {t s' : Poster} {out : Shown} (quiet : .realPost ∉ acts)
    (fell : fallback c acts t = (s', out)) :
    PresentsOwn want tr c out ↔ t.gRealPost = false → ionPhys want c.handle ≠ 0 →
      lastAccepted (history tr ++ acts) = some (ionPhys want c.handle) := by
  rw [fallback] at fell
  split_ifs at fell with hreal
  · cases fell
    simp [PresentsOwn, hreal]
  · cases fell
    simp [PresentsOwn, hreal, quiet]

/-- **One post** presents its own frame exactly when it agrees with the pin. -/
theorem presentsOwn_iff {b : Bool} {tr : List (PostCall × Shown)} {s s' : Poster} {c : PostCall}
    {out : Shown} (hlast : lastAccepted (history tr) = s.scanout)
    (e : Outcome (defaultFiles b) s c s' out) :
    PresentsOwn s.gZcFrame tr c out ↔ Agrees s c := by
  -- what is scanned out after a post
  have hscan : ∀ {acts t}, Carried (defaultFiles b) s acts t →
      lastAccepted (history tr ++ acts) = t.scanout := by
    intro acts t carried
    rw [lastAccepted_append, hlast, carried.scanout]
  cases e with
  | flipped ready flips carried scanout =>
    have hright : PresentsOwn s.gZcFrame tr c ⟨_, 0⟩ := fun _ _ _ => by
      rw [hscan carried, scanout, physOf_of_ready ready]
    refine iff_of_true hright ⟨fun _ long => absurd flips long, fun fell => ?_⟩
    exact absurd flips (fell ready).1
  | shown ready long set display carried scanout =>
    have hphys := physOf_of_ready ready
    have hne : ionPhys s.gZcFrame c.handle ≠ 0 := hphys ▸ ready.2
    have hpin := presents_eq_iff (b := b) (s := s) hne
    constructor
    · intro h
      have hown := h rfl carried.quiet hne
      rw [hscan carried, scanout, hphys, Option.some.injEq] at hown
      exact ⟨fun _ _ _ _ => hpin.mp hown, fun fell => absurd set (fell ready).2⟩
    · intro h _ _ _
      rw [hscan carried, scanout, hphys, hpin.mpr (h.long ready long set (.inl display))]
  | hidden ready long set display carried scanout fell =>
    have hphys := physOf_of_ready ready
    have hne : ionPhys s.gZcFrame c.handle ≠ 0 := hphys ▸ ready.2
    have hpin := presents_eq_iff (b := b) (s := s) hne
    rw [presentsOwn_fallback carried.quiet fell, carried.realPost, hscan carried, scanout, hphys,
      Option.some.injEq]
    constructor
    · intro h
      refine ⟨fun _ _ _ hor => ?_, fun fell => absurd set (fell ready).2⟩
      exact hpin.mp (h (hor.resolve_left display) hne)
    · intro h hno _
      exact hpin.mpr (h.long ready long set (.inr hno))
  | refused refused carried scanout fell =>
    rw [presentsOwn_fallback carried.quiet fell, carried.realPost, hscan carried, scanout]
    exact ⟨fun h => ⟨fun ready _ set => absurd set (refused ready).2, fun _ => h⟩,
      fun h => h.fell refused⟩

/-! ### Every run -/

variable {nocpucolor : Bool} {shim : State} {fbfd : Int} {realPost zcSync : Bool}
  {xres yres : UInt32}

/-- The invariant of every run: `scanout` is the last address the kernel has accepted, and the
variables that hold the configuration have not changed. -/
structure Follows (nocpucolor : Bool) (want : UInt32) (tr : List (PostCall × Shown))
    (s : Poster) : Prop where
  flags : Flags (defaultFiles nocpucolor) s.shim
  frame : s.gZcFrame = want
  scanout : lastAccepted (history tr) = s.scanout

theorem Follows.step {want : UInt32} {tr : List (PostCall × Shown)} {s s' : Poster} {c : PostCall}
    {out : Shown} (h : Follows nocpucolor want tr s)
    (hstep : overlayPost (defaultFiles nocpucolor) s c = some (s', out)) :
    Follows nocpucolor want (tr ++ [(c, out)]) s' := by
  obtain ⟨flags, frame, scanout⟩ := (outcome_of_overlayPost rfl h.flags hstep).carried
  exact ⟨flags, frame.trans h.frame, by
    rw [history_snoc, lastAccepted_append, h.scanout, scanout]⟩

theorem follows_of_run {tr : List (PostCall × Shown)} {s : Poster}
    (hs : Flags (defaultFiles nocpucolor) shim)
    (h : Run (overlayPost (defaultFiles nocpucolor))
      (patched shim fbfd realPost zcSync xres yres) tr s) :
    Follows nocpucolor (xres * yres * 4) tr s :=
  h.invariant ⟨hs, rfl, rfl⟩ fun hw _ hstep => hw.step hstep

/-- **Every frame is presented exactly in the runs that agree with the pin**: no post goes the long
way while another address is pinned, and none falls back to a missing `post`. -/
theorem presents_own_iff {tr : List (PostCall × Shown)} {s : Poster}
    (hs : Flags (defaultFiles nocpucolor) shim)
    (h : Run (overlayPost (defaultFiles nocpucolor))
      (patched shim fbfd realPost zcSync xres yres) tr s) :
    Always (PresentsOwn (xres * yres * 4)) tr ↔
      RunWhere (overlayPost (defaultFiles nocpucolor)) Agrees
        (patched shim fbfd realPost zcSync xres yres) tr s := by
  refine h.always_iff ?_
  intro tr s c s' out hrun hstep
  have hfollows := follows_of_run hs hrun
  rw [← hfollows.frame]
  exact presentsOwn_iff hfollows.scanout (outcome_of_overlayPost rfl hfollows.flags hstep)

/-- A post of a buffer at `phys` of which the kernel accepts everything but, perhaps, the flip. -/
def postAt (phys : UInt32) (pageflip : Answer) : PostCall :=
  ⟨[some (phys, 4)], true, true, pageflip, .ok, .ok, .ok, 16, 0⟩

/-- A process that has just been loaded, without any memory. -/
def bare : State := loaded (fun _ => none) fun _ => []

/-- What the first post of a one-pixel screen does. -/
def firstActs (phys : UInt32) : List Act :=
  [.request (.setOverlay ⟨sprdLayerOsd, sprdDataFormatRgb888, 0, 0, 0, ⟨0, 0, 1, 1⟩, phys⟩) .ok,
    .request (.displayOverlay ⟨sprdLayerOsd, ⟨0, 0, 1, 1⟩, sprdOverlayDisplayAsync⟩) .ok,
    .request .waitForVsync .ok]

/-- The first post and a flip to the second buffer. -/
theorem presents_own_iff_flipped :
    let tr : List (PostCall × Shown) :=
      [(postAt 0x9ffcc000 .ok, ⟨firstActs 0x9ffcc000, 0⟩),
        (postAt 0xa0143000 .ok, ⟨[.request (.pageflip 0xa0143000) .ok], 0⟩)]
    ∃ s, Always (PresentsOwn (1 * 1 * 4)) tr ↔
      RunWhere (overlayPost (defaultFiles false)) Agrees (patched bare 3 true true 1 1) tr s := by
  intro tr
  have hexec : (exec (overlayPost (defaultFiles false)) (fun _ _ => True)
      (patched bare 3 true true 1 1) (tr.map Prod.fst)).map Prod.fst = some tr := by
    decide +kernel
  obtain ⟨⟨tr', s⟩, hs, rfl⟩ := Option.map_eq_some_iff.mp hexec
  exact ⟨s, presents_own_iff (flags_loaded _ _ _) (run_of_exec hs)⟩

/-- The kernel refuses the flip to the second buffer; the long way presents the first one again. -/
theorem presents_own_not_always :
    ¬ ∀ (nocpucolor zcSync : Bool) (openFds : Int → Option ℕ) (pixels : ℕ → List UInt8)
      (fbfd : Int) (xres yres : UInt32) (tr : List (PostCall × Shown)) (s : Poster),
        Run (overlayPost (defaultFiles nocpucolor))
          (patched (loaded openFds pixels) fbfd true zcSync xres yres) tr s →
            Always (PresentsOwn (xres * yres * 4)) tr := by
  intro hall
  let tr : List (PostCall × Shown) :=
    [(postAt 0x9ffcc000 .ok, ⟨firstActs 0x9ffcc000, 0⟩),
      (postAt 0xa0143000 (.failed 1),
        ⟨.request (.pageflip 0xa0143000) (.failed 1) :: firstActs 0x9ffcc000, 0⟩)]
  have hexec : (exec (overlayPost (defaultFiles false)) (fun _ _ => True)
      (patched bare 3 true true 1 1) (tr.map Prod.fst)).map Prod.fst = some tr := by
    decide +kernel
  obtain ⟨⟨tr', s⟩, hs, rfl⟩ := Option.map_eq_some_iff.mp hexec
  have halways := hall _ _ _ _ _ _ _ _ s (run_of_exec hs)
  have hown := halways [(postAt 0x9ffcc000 .ok, ⟨firstActs 0x9ffcc000, 0⟩)]
    (postAt 0xa0143000 (.failed 1)) _ [] rfl rfl (by decide) (by decide)
  revert hown
  decide

end ZeroCopy

end A1000
