import A1000.Shim.Osd

/-!
# The zero-copy post

`a1000_overlay_post` in `libsprdshim_fbpost.cpp` replaces the `post` of a frame buffer device.
Instead of copying the frame it hands the frame's physical address to the display controller:
through `SET_OVERLAY` and `DISPLAY_OVERLAY` the first time, through `PAGEFLIP` as long as that keeps
working. Whenever something fails, the frame goes to the device's own `post`.

All its requests pass through the `ioctl` that the same library interposes.

What the kernel answers, how long the vsync wait takes, and what ION says about the descriptors of
a buffer are inputs. Left out: the log, and the lock that waits for the GPU (`a1000_sync_gpu`),
which changes nothing here.

## Main definitions

* `Shim.Poster` — the variables of the file, those of the interposed `ioctl`, and the address the
  kernel scans out from
* `Shim.ioctl` — a request as it leaves the interposed `ioctl`
* `Shim.overlayPost` — one call of `a1000_overlay_post`

## Main results

* `Shim.outcome_of_overlayPost` — the ways a post can end, and the address that is scanned out then
-/

namespace A1000

namespace Shim

/-! ### Requests -/

/-- `ov_display_t`, the kernel's `struct overlay_display`. -/
structure OvDisplay where
  layerIndex : Int
  rect : OvRect
  displayMode : Int
  deriving DecidableEq, Repr

def sprdOverlayDisplayAsync : Int := 0

def enotty : Int := 25

/-- The requests the post makes of the frame buffer device. -/
inductive Request
  | setOverlay (o : OvSetting)
  | displayOverlay (d : OvDisplay)
  | pageflip (p : UInt32)
  | waitForVsync
  deriving DecidableEq, Repr

/-- The address a request asks to scan out from. -/
def Request.address? : Request → Option UInt32
  | .setOverlay o => some o.buffer
  | .pageflip p => some p
  | _ => none

/-- What a request returns: 0, or -1 with an `errno`. -/
inductive Answer
  | ok
  | failed (errno : Int)
  deriving DecidableEq, Repr

/-- What a post does that can be seen from outside. -/
inductive Act
  /-- A request as it reaches the kernel, and the answer. -/
  | request (r : Request) (a : Answer)
  | realPost
  deriving DecidableEq, Repr

/-- `ioctl`, up to the call of the real one. -/
def ioctl (files : Files) (granted : Bool) (r : Request) (s : State) : Option (Request × State) :=
  match r with
  | .setOverlay o => (handleOsd files granted o s).map fun t => (.setOverlay t.1, t.2.2)
  | r => some (r, s)

/-! ### State -/

/-- The variables of both files; `scanout` is the address of the last request for one that the
kernel has accepted. -/
structure Poster where
  shim : State
  gFbfd : Int
  /-- Whether `/dev/ion` could be opened, once that has been tried. -/
  gIonfd : Option Bool
  /-- Whether the device had a `post`. -/
  gRealPost : Bool
  gZcFrame : UInt32
  gZcW : UInt32
  gZcH : UInt32
  gZcOff : Bool
  gZcSync : Bool
  gZcFlip : Bool
  gZcNoflip : Bool
  slowInRow : ℕ
  scanout : Option UInt32

/-- After `a1000_patch_post` has found a screen of `xres` by `yres`. -/
def patched (shim : State) (fbfd : Int) (realPost zcSync : Bool) (xres yres : UInt32) : Poster where
  shim
  gFbfd := fbfd
  gIonfd := none
  gRealPost := realPost
  gZcFrame := xres * yres * 4
  gZcW := xres
  gZcH := yres
  gZcOff := false
  gZcSync := zcSync
  gZcFlip := false
  gZcNoflip := false
  slowInRow := 0
  scanout := none

/-- A post: the buffer that is posted, and what the calls it makes return. -/
structure PostCall where
  /-- What ION says about each descriptor of the buffer: an address and a size, or nothing. -/
  handle : List (Option (UInt32 × UInt32))
  ionOpens : Bool
  /-- Whether `handle_osd` can map the picture. -/
  granted : Bool
  pageflip : Answer
  setOverlay : Answer
  displayOverlay : Answer
  vsync : Answer
  /-- How many milliseconds the wait takes. -/
  vsyncMs : Int
  realPost : Int
  deriving DecidableEq, Repr

/-- What a post did, and what it returned. -/
structure Shown where
  acts : List Act
  ret : Int
  deriving DecidableEq, Repr

/-! ### The post -/

/-- The loop of `a1000_phys_of`: the first address ION knows for one of the descriptors. -/
def ionPhys (want : UInt32) : List (Option (UInt32 × UInt32)) → UInt32
  | [] => 0
  | some (phys, size) :: rest => if phys ≠ 0 ∧ want ≤ size then phys else ionPhys want rest
  | none :: rest => ionPhys want rest

/-- Whether `/dev/ion` is open, or opens now. -/
def Poster.ionOpen (s : Poster) (c : PostCall) : Bool := s.gIonfd.getD c.ionOpens

/-- `a1000_phys_of`. -/
def physOf (c : PostCall) (want : UInt32) (s : Poster) : UInt32 × Poster :=
  if c.handle = [] then (0, s)
  else
    let opened := s.ionOpen c
    let s := { s with gIonfd := some opened }
    if opened = false then (0, s) else (ionPhys want c.handle, s)

/-- One request, and what becomes of the scan-out address. -/
def send (files : Files) (granted : Bool) (r : Request) (a : Answer) (s : Poster) :
    Option (Act × Poster) :=
  (ioctl files granted r s.shim).map fun t =>
    (.request t.1 a, { s with
      shim := t.2
      scanout := if a = .ok then t.1.address?.or s.scanout else s.scanout })

/-- `a1000_wait_vsync`. -/
def waitVsync (c : PostCall) (s : Poster) : List Act × Poster :=
  if ¬ s.gZcSync ∨ s.gFbfd < 0 then ([], s)
  else
    ([.request .waitForVsync c.vsync],
      if c.vsync ≠ .ok then { s with gZcSync := false }
      else if 50 ≤ c.vsyncMs then
        { s with
          slowInRow := s.slowInRow + 1
          gZcSync := s.slowInRow + 1 < 5 }
      else { s with slowInRow := 0 })

/-- The end of `a1000_overlay_post`, from `fallback:` on. -/
def fallback (c : PostCall) (acts : List Act) (s : Poster) : Poster × Shown :=
  if s.gRealPost then (s, ⟨acts ++ [.realPost], c.realPost⟩) else (s, ⟨acts, 0⟩)

/-- What is asked for on the long way. -/
def overlaySetting (phys : UInt32) (s : Poster) : OvSetting :=
  ⟨sprdLayerOsd, sprdDataFormatRgb888, 0, 0, 0, ⟨0, 0, s.gZcW.toUInt16, s.gZcH.toUInt16⟩, phys⟩

def overlayDisplay (s : Poster) : OvDisplay :=
  ⟨sprdLayerOsd, ⟨0, 0, s.gZcW.toUInt16, s.gZcH.toUInt16⟩, sprdOverlayDisplayAsync⟩

/-- `a1000_overlay_post` once there is no short way: `SET_OVERLAY`, `DISPLAY_OVERLAY`, and the wait
for the panel. `acts` is what the post has done before. -/
def longWay (files : Files) (c : PostCall) (phys : UInt32) (acts : List Act) (s : Poster) :
    Option (Poster × Shown) :=
  (send files c.granted (.setOverlay (overlaySetting phys s)) c.setOverlay s).bind fun r =>
    if c.setOverlay ≠ .ok then some (fallback c (acts ++ [r.1]) r.2)
    else
      (send files c.granted (.displayOverlay (overlayDisplay r.2)) c.displayOverlay r.2).bind
        fun t =>
        if c.displayOverlay ≠ .ok then some (fallback c (acts ++ [r.1, t.1]) t.2)
        else
          let w := if t.2.gZcSync then waitVsync c t.2 else ([], t.2)
          some ({ w.2 with gZcFlip := true }, ⟨acts ++ [r.1, t.1] ++ w.1, 0⟩)

/-- `a1000_overlay_post`. -/
def overlayPost (files : Files) (s : Poster) (c : PostCall) : Option (Poster × Shown) :=
  if s.gZcOff ∨ s.gFbfd < 0 then some (fallback c [] s)
  else
    let r := physOf c s.gZcFrame s
    let phys := r.1
    let s := r.2
    if phys = 0 then some (fallback c [] { s with gZcOff := true })
    else if s.gZcFlip ∧ ¬ s.gZcNoflip then
      (send files c.granted (.pageflip phys) c.pageflip s).bind fun t =>
        match c.pageflip with
        | .ok => some (t.2, ⟨[t.1], 0⟩)
        | .failed errno =>
          longWay files c phys [t.1] { t.2 with
            gZcNoflip := t.2.gZcNoflip || errno = enotty
            gZcFlip := false }
    else longWay files c phys [] s

/-! ### What reaches the kernel -/

/-- The address an act makes the kernel scan out from. -/
def Act.accepted? : Act → Option UInt32
  | .request r .ok => r.address?
  | _ => none

/-- The last address the kernel has accepted. -/
def lastAccepted (acts : List Act) : Option UInt32 := acts.reverse.findSome? Act.accepted?

@[simp] theorem lastAccepted_nil : lastAccepted [] = none := rfl

@[simp] theorem lastAccepted_append (as bs : List Act) :
    lastAccepted (as ++ bs) = (lastAccepted bs).or (lastAccepted as) := by
  simp [lastAccepted, List.findSome?_append]

@[simp] theorem lastAccepted_cons (a : Act) (as : List Act) :
    lastAccepted (a :: as) = (lastAccepted as).or a.accepted? := by
  have hone : lastAccepted [a] = a.accepted? := by simp [lastAccepted]
  rw [← hone, ← lastAccepted_append, List.singleton_append]

/-- What a stretch of a post leaves alone, and that `scanout` follows what the kernel accepts. -/
structure Carried (files : Files) (s : Poster) (acts : List Act) (t : Poster) : Prop where
  flags : Flags files t.shim
  frame : t.gZcFrame = s.gZcFrame
  realPost : t.gRealPost = s.gRealPost
  scanout : t.scanout = (lastAccepted acts).or s.scanout
  quiet : .realPost ∉ acts

theorem Carried.append {files : Files} {s t u : Poster} {as bs : List Act}
    (h : Carried files s as t) (h' : Carried files t bs u) : Carried files s (as ++ bs) u where
  flags := h'.flags
  frame := h'.frame.trans h.frame
  realPost := h'.realPost.trans h.realPost
  scanout := by rw [h'.scanout, h.scanout, lastAccepted_append, Option.or_assoc]
  quiet := by simp [h.quiet, h'.quiet]

/-- The address a request for `o` presents. -/
def State.presents (s : State) (files : Files) (o : OvSetting) : UInt32 :=
  if o.ForOsd then s.pinned files o.buffer else o.buffer

/-- An overlay setting leaves the interposed `ioctl` with the address it pinned. -/
theorem ioctl_setOverlay {files : Files} {granted : Bool} {o : OvSetting} {r : Request}
    {s t : State} (hs : Flags files s) (hw : files.hwcolor = none)
    (h : ioctl files granted (.setOverlay o) s = some (r, t)) :
    r.address? = some (s.presents files o) ∧ Flags files t := by
  obtain ⟨⟨o', q, u⟩, hosd, heq⟩ := Option.map_eq_some_iff.mp h
  cases heq
  by_cases ho : o.ForOsd
  · obtain ⟨rfl, -, -, -, hflags⟩ := handleOsd_spec hs hw ho hosd
    exact ⟨by simp [Request.address?, State.presents, ho], hflags⟩
  · rw [handleOsd, if_pos ho] at hosd
    cases hosd
    exact ⟨by simp [Request.address?, State.presents, ho], hs⟩

/-- Any request leaves the interposed `ioctl` with the flags as the files say. -/
theorem flags_of_ioctl {files : Files} {granted : Bool} {r r' : Request} {s t : State}
    (hs : Flags files s) (hw : files.hwcolor = none)
    (h : ioctl files granted r s = some (r', t)) : Flags files t := by
  cases r with
  | setOverlay o => exact (ioctl_setOverlay hs hw h).2
  | _ =>
    cases h
    exact hs

theorem carried_of_send {files : Files} {granted : Bool} {r : Request} {a : Answer} {s t : Poster}
    {act : Act} (hs : Flags files s.shim) (hw : files.hwcolor = none)
    (h : send files granted r a s = some (act, t)) : Carried files s [act] t := by
  obtain ⟨⟨r', u⟩, hio, heq⟩ := Option.map_eq_some_iff.mp h
  cases heq
  refine ⟨flags_of_ioctl hs hw hio, rfl, rfl, ?_, by simp⟩
  cases a <;> simp [Act.accepted?]

/-- The wait presents nothing. -/
theorem carried_waitVsync {files : Files} {c : PostCall} {s : Poster} (hs : Flags files s.shim) :
    Carried files s (waitVsync c s).1 (waitVsync c s).2 ∧
      (waitVsync c s).2.scanout = s.scanout := by
  rw [waitVsync]
  split_ifs with hoff hfail hslow
  · exact ⟨⟨hs, rfl, rfl, rfl, by simp⟩, rfl⟩
  all_goals
    refine ⟨⟨hs, rfl, rfl, ?_, by simp⟩, rfl⟩
    cases hv : c.vsync <;> simp [Act.accepted?, Request.address?]

/-! ### How a post ends -/

/-- The post is not switched off, and its buffer has an address. -/
def Poster.Ready (s : Poster) (c : PostCall) : Prop :=
  (s.gZcOff = false ∧ 0 ≤ s.gFbfd) ∧ (physOf c s.gZcFrame s).1 ≠ 0

instance (s : Poster) (c : PostCall) : Decidable (s.Ready c) :=
  inferInstanceAs (Decidable ((_ ∧ _) ∧ _))

/-- The short way is open, and the kernel lets it pass. -/
def Poster.Flips (s : Poster) (c : PostCall) : Prop :=
  (s.gZcFlip = true ∧ s.gZcNoflip = false) ∧ c.pageflip = .ok

instance (s : Poster) (c : PostCall) : Decidable (s.Flips c) :=
  inferInstanceAs (Decidable ((_ ∧ _) ∧ _))

/-- The address that is scanned out after the long way with a buffer at `phys`. -/
def Poster.presents (s : Poster) (files : Files) (phys : UInt32) : UInt32 :=
  s.shim.presents files (overlaySetting phys s)

/-- **How a post ends**: the short way, the long way, or in one of two places with the real
`post`. -/
inductive Outcome (files : Files) (s : Poster) (c : PostCall) : Poster → Shown → Prop
  | flipped {acts : List Act} {t : Poster} (ready : s.Ready c) (flips : s.Flips c)
      (carried : Carried files s acts t)
      (scanout : t.scanout = some (physOf c s.gZcFrame s).1) : Outcome files s c t ⟨acts, 0⟩
  | shown {acts : List Act} {t : Poster} (ready : s.Ready c) (long : ¬ s.Flips c)
      (set : c.setOverlay = .ok) (display : c.displayOverlay = .ok)
      (carried : Carried files s acts t)
      (scanout : t.scanout = some (s.presents files (physOf c s.gZcFrame s).1)) :
      Outcome files s c t ⟨acts, 0⟩
  /-- `SET_OVERLAY` has been accepted, `DISPLAY_OVERLAY` has not. -/
  | hidden {acts : List Act} {t s' : Poster} {out : Shown} (ready : s.Ready c) (long : ¬ s.Flips c)
      (set : c.setOverlay = .ok) (display : c.displayOverlay ≠ .ok)
      (carried : Carried files s acts t)
      (scanout : t.scanout = some (s.presents files (physOf c s.gZcFrame s).1))
      (fell : fallback c acts t = (s', out)) : Outcome files s c s' out
  /-- Nothing has been accepted. -/
  | refused {acts : List Act} {t s' : Poster} {out : Shown}
      (refused : s.Ready c → ¬ s.Flips c ∧ c.setOverlay ≠ .ok) (carried : Carried files s acts t)
      (scanout : t.scanout = s.scanout) (fell : fallback c acts t = (s', out)) :
      Outcome files s c s' out

theorem physOf_eq (c : PostCall) (want : UInt32) (s : Poster) :
    ∃ ionfd, (physOf c want s).2 = { s with gIonfd := ionfd } := by
  simp only [physOf]
  split_ifs
  · exact ⟨s.gIonfd, rfl⟩
  · exact ⟨_, rfl⟩
  · exact ⟨_, rfl⟩

/-- The long way from a state `u` of a post that has presented nothing yet. -/
theorem outcome_of_longWay {files : Files} {c : PostCall} {s u s' : Poster} {out : Shown}
    {acts : List Act} (hw : files.hwcolor = none) (ready : s.Ready c) (long : ¬ s.Flips c)
    (carried : Carried files s acts u) (scanout : u.scanout = s.scanout) (shim : u.shim = s.shim)
    (size : u.gZcW = s.gZcW ∧ u.gZcH = s.gZcH)
    (h : longWay files c (physOf c s.gZcFrame s).1 acts u = some (s', out)) :
    Outcome files s c s' out := by
  obtain ⟨⟨a, v⟩, hset, h⟩ := Option.bind_eq_some_iff.mp h
  have hcarried := carried.append (carried_of_send carried.flags hw hset)
  obtain ⟨⟨r, w⟩, hio, heq⟩ := Option.map_eq_some_iff.mp hset
  by_cases hok : c.setOverlay = .ok
  · -- what is presented depends on nothing that has changed
    have hlatched : v.scanout = some (s.presents files (physOf c s.gZcFrame s).1) := by
      have hadr := (ioctl_setOverlay carried.flags hw hio).1
      cases heq
      simp [hok, hadr, Poster.presents, overlaySetting, size, shim]
    simp only [hok, ne_eq, not_true_eq_false, if_false] at h
    obtain ⟨⟨b, x⟩, hdisplay, h⟩ := Option.bind_eq_some_iff.mp h
    have hshown := hcarried.append (carried_of_send hcarried.flags hw hdisplay)
    have hsame : x.scanout = some (s.presents files (physOf c s.gZcFrame s).1) := by
      rw [← hlatched]
      cases hdisplay
      simp [Request.address?]
    by_cases hdis : c.displayOverlay = .ok
    · simp only [hdis, not_true_eq_false, if_false, Option.some.injEq, Prod.mk.injEq] at h
      obtain ⟨rfl, rfl⟩ := h
      have hwait : Carried files x (if x.gZcSync then waitVsync c x else ([], x)).1
          (if x.gZcSync then waitVsync c x else ([], x)).2 ∧
            (if x.gZcSync then waitVsync c x else ([], x)).2.scanout = x.scanout := by
        split_ifs
        · exact carried_waitVsync hshown.flags
        · exact ⟨⟨hshown.flags, rfl, rfl, rfl, by simp⟩, rfl⟩
      have hall := hshown.append hwait.1
      refine .shown ready long hok hdis ⟨hall.flags, hall.frame, hall.realPost, ?_, ?_⟩
        (hwait.2.trans hsame)
      · simpa using hall.scanout
      · simpa using hall.quiet
    · simp only [hdis, not_false_eq_true, if_true, Option.some.injEq] at h
      exact .hidden ready long hok hdis (by simpa using hshown) hsame h
  · simp only [hok, ne_eq, not_false_eq_true, if_true, Option.some.injEq] at h
    refine .refused (fun _ => ⟨long, hok⟩) hcarried ?_ h
    cases heq
    simp [hok, scanout]

/-- **How a post can end.** -/
theorem outcome_of_overlayPost {files : Files} {c : PostCall} {s s' : Poster} {out : Shown}
    (hw : files.hwcolor = none) (hs : Flags files s.shim)
    (h : overlayPost files s c = some (s', out)) : Outcome files s c s' out := by
  obtain ⟨ionfd, hion⟩ := physOf_eq c s.gZcFrame s
  have hstart : Carried files s [] { s with gIonfd := ionfd } := ⟨hs, rfl, rfl, rfl, by simp⟩
  simp only [overlayPost, hion] at h
  by_cases hoff : s.gZcOff ∨ s.gFbfd < 0
  · rw [if_pos hoff, Option.some.injEq] at h
    refine .refused (fun ready => ?_) ⟨hs, rfl, rfl, rfl, by simp⟩ rfl h
    obtain ⟨⟨hon, hfd⟩, -⟩ := ready
    rcases hoff with hoff | hoff
    · rw [hon] at hoff
      cases hoff
    · omega
  rw [if_neg hoff] at h
  by_cases hphys : (physOf c s.gZcFrame s).1 = 0
  · rw [if_pos hphys, Option.some.injEq] at h
    refine .refused (fun ready => absurd hphys ready.2) ?_ ?_ h
    · exact ⟨hs, rfl, rfl, rfl, by simp⟩
    · rfl
  rw [if_neg hphys] at h
  have ready : s.Ready c := ⟨by simpa using hoff, hphys⟩
  by_cases hshort : s.gZcFlip = true ∧ ¬ s.gZcNoflip = true
  · rw [if_pos hshort] at h
    obtain ⟨⟨a, t⟩, hflip, h⟩ := Option.bind_eq_some_iff.mp h
    have hcarried := hstart.append (carried_of_send hs hw hflip)
    cases hflip
    cases hanswer : c.pageflip with
    | ok =>
      simp only [hanswer, Option.some.injEq, Prod.mk.injEq] at h hcarried
      obtain ⟨rfl, rfl⟩ := h
      exact .flipped ready ⟨by simpa using hshort, hanswer⟩ hcarried (by simp [Request.address?])
    | failed errno =>
      simp only [hanswer] at h hcarried
      have long : ¬ s.Flips c := fun hflips => by
        have hok := hflips.2
        rw [hanswer] at hok
        cases hok
      refine outcome_of_longWay hw ready long ?_ ?_ ?_ ?_ h
      · exact ⟨hcarried.flags, hcarried.frame, hcarried.realPost, hcarried.scanout, hcarried.quiet⟩
      · simp
      · rfl
      · exact ⟨rfl, rfl⟩
  · rw [if_neg hshort] at h
    have long : ¬ s.Flips c := fun hflips => hshort (by simpa using hflips.1)
    exact outcome_of_longWay hw ready long hstart rfl rfl ⟨rfl, rfl⟩ h

/-- However a post ends, `scanout` follows what the kernel accepts. -/
theorem Outcome.carried {files : Files} {s s' : Poster} {c : PostCall} {out : Shown}
    (e : Outcome files s c s' out) :
    Flags files s'.shim ∧ s'.gZcFrame = s.gZcFrame ∧
      s'.scanout = (lastAccepted out.acts).or s.scanout := by
  have hfell : ∀ {acts t}, Carried files s acts t → fallback c acts t = (s', out) →
      Flags files s'.shim ∧ s'.gZcFrame = s.gZcFrame ∧
        s'.scanout = (lastAccepted out.acts).or s.scanout := by
    intro acts t carried fell
    rw [fallback] at fell
    split_ifs at fell <;> cases fell
    · exact ⟨carried.flags, carried.frame, by simp [carried.scanout, Act.accepted?]⟩
    · exact ⟨carried.flags, carried.frame, carried.scanout⟩
  cases e with
  | flipped ready flips carried => exact ⟨carried.flags, carried.frame, carried.scanout⟩
  | shown ready long set display carried => exact ⟨carried.flags, carried.frame, carried.scanout⟩
  | hidden ready long set display carried scanout fell => exact hfell carried fell
  | refused refused carried scanout fell => exact hfell carried fell

end Shim

end A1000
