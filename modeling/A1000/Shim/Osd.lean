import A1000.Shim.Color
import Mathlib.Logic.Function.Basic

/-!
# The interposed ioctl

`libsprdshim_ioctl.c`: every presenting ioctl of the process goes through it. `handle_osd` pins the
scan-out address to the first one it ever saw and turns the colours of the picture that is
presented; `handle_layer` does the latter for a source layer of the hardware compositor.

The shim remembers by descriptor number what it left in a picture, and by physical address which
descriptor to map. A descriptor refers to a *buffer*, a piece of memory that may be reached through
several numbers; numbers come and go, buffers are told apart by what they are.

Left out: the log, and the cache flush after turning (`ion_sync_fd`), which changes nothing the
processor can see.

## Main definitions

* `Shim.State` — the variables of the file, the open descriptors and the memory behind them
* `Shim.fdSlot`, `Shim.sprdcolorRecord` — the two tables
* `Shim.rotateOnce` — turning a picture unless it is as it was left
* `Shim.handleOsd`, `Shim.handleLayer` — the two entry points

## Main results

* `Shim.rotateOnce_eq_some` — what a pass leaves in the picture
* `Shim.handleOsd_spec` — what `handle_osd` does with a setting it deals with
-/

namespace A1000

namespace Shim

/-! ### What the ioctls carry -/

structure OvRect where
  x : UInt16
  y : UInt16
  w : UInt16
  h : UInt16
  deriving DecidableEq, Repr

/-- `OV_SETTING_T`, the kernel's `struct overlay_setting`. -/
structure OvSetting where
  layerIndex : Int
  dataType : Int
  yEndian : Int
  uvEndian : Int
  rbSwitch : UInt8
  rect : OvRect
  /-- The physical address scan-out starts at. -/
  buffer : UInt32
  deriving DecidableEq, Repr

def sprdLayerOsd : Int := 0x2
def sprdDataFormatRgb888 : Int := 3

/-- What `handle_layer` is given of a GSP layer. -/
structure GspLayer where
  layerEn : Bool
  shareFd : Int
  pitch : UInt32
  rectH : UInt16
  deriving DecidableEq, Repr

/-! ### State -/

/-- The files under `/data` that switch the shim. -/
structure Files where
  /-- `gsp_nopin` exists. -/
  nopin : Bool
  /-- The two numbers in `gsp_hwcolor`, if it can be read and holds two. -/
  hwcolor : Option (Int × Int)
  /-- `gsp_nocpucolor` exists. -/
  nocpucolor : Bool
  deriving DecidableEq, Repr

def fdmap : ℕ := 24
def physmap : ℕ := 16

/-- An entry of `g_fd`. -/
structure FdEntry where
  fd : Int
  hash : UInt32
  deriving DecidableEq, Repr

/-- An entry of `g_phys`. -/
structure PhysEntry where
  phys : UInt32
  fd : Int
  len : UInt32
  deriving DecidableEq, Repr

/-- The variables of the file; the ones that start at -1 for "unknown" are `none` then. -/
structure State where
  gFd : List FdEntry
  gFdrr : ℕ
  gPhys : List PhysEntry
  gPhysrr : ℕ
  pin : UInt32
  pinOff : Option Bool
  gSweep : Option Bool
  gHwEndian : Int
  gHwRb : Int
  gCpucolor : Option Bool
  /-- The buffer an open descriptor of the process refers to. -/
  openFds : Int → Option ℕ
  /-- The memory of a buffer. -/
  pixels : ℕ → List UInt8

/-- The process before its first ioctl: empty tables, nothing known. -/
def loaded (openFds : Int → Option ℕ) (pixels : ℕ → List UInt8) : State where
  gFd := List.replicate fdmap ⟨0, 0⟩
  gFdrr := 0
  gPhys := List.replicate physmap ⟨0, 0, 0⟩
  gPhysrr := 0
  pin := 0
  pinOff := none
  gSweep := none
  gHwEndian := 0
  gHwRb := 0
  gCpucolor := none
  openFds
  pixels

/-! ### The two tables -/

/-- `fd_slot`: the slot of a descriptor number. A number that is not listed takes the first free
slot or, when there is none, the next one in turn. -/
def fdSlot (fd : Int) (s : State) : ℕ × State :=
  match s.gFd.findIdx? fun e => e.fd = fd with
  | some i => (i, s)
  | none =>
    match s.gFd.findIdx? fun e => e.fd = 0 with
    | some freei => (freei, { s with gFd := s.gFd.set freei ⟨fd, 0⟩ })
    -- evict round-robin
    | none => (s.gFdrr, { s with
        gFd := s.gFd.set s.gFdrr ⟨fd, 0⟩
        gFdrr := (s.gFdrr + 1) % fdmap })

/-- `*slot`. -/
def State.hashAt (s : State) (i : ℕ) : UInt32 := (s.gFd[i]?.map FdEntry.hash).getD 0

/-- `*slot = h`. -/
def State.setHash (s : State) (i : ℕ) (h : UInt32) : State :=
  { s with gFd := s.gFd.modify i fun e => { e with hash := h } }

/-- `close`. -/
def close (fd : Int) (s : State) : State := { s with openFds := Function.update s.openFds fd none }

/-- `dup(fd)`, when it returns `dupfd`. -/
def dup (fd dupfd : Int) (s : State) : State :=
  if dupfd < 0 then s
  else { s with openFds := Function.update s.openFds dupfd (s.openFds fd) }

/-- Closing the descriptor of the entry at `i`, if it is one to close. -/
def closeEntry (i : ℕ) (holds : PhysEntry → Bool) (s : State) : State :=
  match s.gPhys[i]? with
  | some e => if holds e then close e.fd s else s
  | none => s

/-- The entry `_sprdcolor_record` writes to: the one of this address, or a free one, or the next
one in turn. The descriptor it held is closed. -/
def recordSlot (phys : UInt32) (s : State) : ℕ × State :=
  match s.gPhys.findIdx? fun e => e.phys = phys with
  -- > 0, never >= 0: the table starts zeroed
  | some i => (i, closeEntry i (fun e => e.fd > 0) s)
  | none =>
    match s.gPhys.findIdx? fun e => e.phys = 0 with
    | some freei => (freei, s)
    | none => (s.gPhysrr, closeEntry s.gPhysrr (fun e => e.phys ≠ 0 ∧ e.fd > 0)
        { s with gPhysrr := (s.gPhysrr + 1) % physmap })

/-- `_sprdcolor_record`, when `dup` returns `dupfd`. -/
def sprdcolorRecord (phys : UInt32) (fd : Int) (len : UInt32) (dupfd : Int) (s : State) : State :=
  if phys = 0 ∨ fd < 0 then s
  else
    let r := recordSlot phys s
    let t := dup fd dupfd r.2
    { t with gPhys := t.gPhys.set r.1 ⟨phys, dupfd, len⟩ }

/-! ### Turning a picture -/

/-- A picture that is mapped: through which descriptor number, of which buffer, how many pixels the
pass goes over, and how many bytes are mapped for it. -/
structure Picture where
  fd : Int
  buffer : ℕ
  npix : ℕ
  len : ℕ
  deriving DecidableEq, Repr

/-- `mmap`, when the kernel grants it. -/
def mmap (granted : Bool) (fd : Int) (npix len : ℕ) (s : State) : Option Picture :=
  if granted ∧ len ≠ 0 then (s.openFds fd).map fun x => ⟨fd, x, npix, len⟩ else none

/-- What is mapped comes in whole pages. -/
def pageAlign (len : ℕ) : ℕ := (len + 4095) / 4096 * 4096

/-- What `handle_layer` and `handle_osd` do with a mapped picture: turn it unless its hash is the
one left under its descriptor number. `none` when the pass runs off the end of the mapping or of
the buffer. -/
def rotateOnce (p : Picture) (s : State) : Option State :=
  if 4 * p.npix ≤ pageAlign p.len ∧ 4 * p.npix ≤ (s.pixels p.buffer).length then
    let r := fdSlot p.fd s
    let h := (process (s.pixels p.buffer) p.npix false).2
    if r.2.hashAt r.1 ≠ h then
      let t := process (s.pixels p.buffer) p.npix true
      some { r.2.setHash r.1 t.2 with pixels := Function.update s.pixels p.buffer t.1 }
    else some r.2
  else none

/-- The pass over a picture, if one could be mapped: the picture, and the state that is left. -/
def turnMapped (q : Option Picture) (s : State) : Option (Option Picture × State) :=
  match q with
  | none => some (none, s)
  | some p => (rotateOnce p s).map fun t => (some p, t)

/-- The picture `handle_layer` maps. -/
def mapLayer (granted : Bool) (l : GspLayer) (s : State) : Option Picture :=
  if ¬ l.layerEn ∨ l.shareFd ≤ 0 ∨ l.pitch = 0 ∨ l.rectH = 0 then none
  else
    let npix := l.pitch * l.rectH.toUInt32
    let len := npix * 4
    mmap granted l.shareFd npix.toNat len.toNat s

/-- `handle_layer`. -/
def handleLayer (granted : Bool) (l : GspLayer) (s : State) : Option (Option Picture × State) :=
  turnMapped (mapLayer granted l s) s

/-! ### The OSD layer -/

/-- The first part of `handle_osd`: the presented address becomes the first one ever presented. -/
def pinOsd (files : Files) (o : OvSetting) (s : State) : OvSetting × State :=
  let s := { s with pinOff := some (s.pinOff.getD files.nopin) }
  if s.pinOff = some true then (o, s)
  else
    let s := if s.pin = 0 then { s with pin := o.buffer } else s
    ({ o with buffer := s.pin }, s)

/-- Reading `gsp_hwcolor`, once. -/
def readSweep (files : Files) (s : State) : State :=
  match s.gSweep with
  | some _ => s
  | none =>
    match files.hwcolor with
    | some hw => { s with gHwEndian := hw.1, gHwRb := hw.2, gSweep := some true }
    | none => { s with gSweep := some false }

/-- The picture at the address that is presented, as far as `g_phys` knows it. -/
def mapOsd (granted : Bool) (o : OvSetting) (s : State) : Option Picture :=
  let e := s.gPhys.find? fun e => e.phys = o.buffer
  let npix := o.rect.w.toNat * o.rect.h.toNat
  let len := match e with
    | some e => if e.len ≠ 0 then e.len.toNat else npix * 4 % 2 ^ 32
    | none => npix * 4 % 2 ^ 32
  let bfd := match e with
    | some e => e.fd
    | none => -1
  if bfd < 0 then none else mmap granted bfd npix len s

/-- The first two lines of `handle_osd`: whether the setting is one it deals with. -/
def OvSetting.ForOsd (o : OvSetting) : Prop :=
  (o.layerIndex = sprdLayerOsd ∧ o.dataType = sprdDataFormatRgb888) ∧
    o.buffer ≠ 0 ∧ o.rect.w ≠ 0 ∧ o.rect.h ≠ 0

instance : DecidablePred OvSetting.ForOsd := fun _ =>
  inferInstanceAs (Decidable ((_ ∧ _) ∧ _ ∧ _ ∧ _))

/-- `handle_osd`: the settings it leaves, the picture it mapped, and the state. -/
def handleOsd (files : Files) (granted : Bool) (o : OvSetting) (s : State) :
    Option (OvSetting × Option Picture × State) :=
  if ¬ o.ForOsd then some (o, none, s)
  else
    let r := pinOsd files o s
    let s := readSweep files r.2
    if s.gSweep = some true then
      some ({ r.1 with yEndian := s.gHwEndian, rbSwitch := (s.gHwRb % 256).toNat.toUInt8 }, none, s)
    else
      let s := { s with gCpucolor := some (s.gCpucolor.getD !files.nocpucolor) }
      if s.gCpucolor = some false then some (r.1, none, s)
      else (turnMapped (mapOsd granted r.1 s) s).map fun t => (r.1, t)

/-! ### What a pass leaves -/

/-- The hash listed with a descriptor number; a number that is not listed has none, which is 0. -/
def State.fdHash (s : State) (fd : Int) : UInt32 :=
  ((s.gFd.find? fun e => e.fd = fd).map FdEntry.hash).getD 0

/-- The slot of a number holds the hash listed with it. -/
theorem hashAt_fdSlot (fd : Int) (s : State) :
    (fdSlot fd s).2.hashAt (fdSlot fd s).1 = s.fdHash fd := by
  have hmiss : s.gFd.findIdx? (fun e => e.fd = fd) = none → s.fdHash fd = 0 := by
    intro h
    simp [State.fdHash, List.find?_eq_bind_findIdx?_getElem?, h]
  rw [fdSlot]
  cases hi : s.gFd.findIdx? fun e => e.fd = fd with
  | some i => simp [State.hashAt, State.fdHash, List.find?_eq_bind_findIdx?_getElem?, hi]
  | none =>
    rw [hmiss hi]
    -- a slot that is given out anew is cleared
    cases hj : s.gFd.findIdx? fun e => e.fd = 0 with
    | some freei =>
      have hlt : freei < s.gFd.length := (List.findIdx?_eq_some_iff_getElem.mp hj).1
      simp [State.hashAt, hlt]
    | none => by_cases hlt : s.gFdrr < s.gFd.length <;> simp [State.hashAt, hlt]

@[simp] theorem fdSlot_pixels (fd : Int) (s : State) : (fdSlot fd s).2.pixels = s.pixels := by
  rw [fdSlot]
  split
  · rfl
  · split <;> rfl

/-- **What a pass leaves in the picture**: what it found, if the hash listed with the descriptor
number is that of the picture, and otherwise the picture turned. -/
theorem rotateOnce_eq_some {p : Picture} {s t : State} (h : rotateOnce p s = some t) :
    4 * p.npix ≤ (s.pixels p.buffer).length ∧
      t.pixels = Function.update s.pixels p.buffer
        (if s.fdHash p.fd = (process (s.pixels p.buffer) p.npix false).2 then s.pixels p.buffer
          else turnPixels p.npix (s.pixels p.buffer)) := by
  rw [rotateOnce] at h
  split at h
  case isFalse => cases h
  case isTrue hfit =>
    refine ⟨hfit.2, ?_⟩
    simp only [hashAt_fdSlot] at h
    split_ifs at h with hne
    · cases h
      rw [if_neg hne, process_true_bytes hfit.2]
    · cases h
      rw [if_pos (not_not.mp hne), Function.update_eq_self, fdSlot_pixels]

/-- What a present does to the pictures: nothing, when it mapped none, and one pass otherwise. -/
inductive Presented (s t : State) : Option Picture → Prop
  | unmapped (pixels : t.pixels = s.pixels) : Presented s t none
  | mapped {p : Picture} (fits : 4 * p.npix ≤ (s.pixels p.buffer).length)
      (pixels : t.pixels = Function.update s.pixels p.buffer
        (if s.fdHash p.fd = (process (s.pixels p.buffer) p.npix false).2 then s.pixels p.buffer
          else turnPixels p.npix (s.pixels p.buffer))) : Presented s t (some p)

theorem Presented.of_some {s t : State} {p : Picture} (h : Presented s t (some p)) :
    4 * p.npix ≤ (s.pixels p.buffer).length ∧ t.pixels = Function.update s.pixels p.buffer
      (if s.fdHash p.fd = (process (s.pixels p.buffer) p.npix false).2 then s.pixels p.buffer
        else turnPixels p.npix (s.pixels p.buffer)) := by
  cases h with
  | mapped fits pixels => exact ⟨fits, pixels⟩

theorem presented_of_turnMapped {q q' : Option Picture} {s t : State}
    (h : turnMapped q s = some (q', t)) : q' = q ∧ Presented s t q := by
  cases q with
  | none =>
    cases h
    exact ⟨rfl, .unmapped rfl⟩
  | some p =>
    obtain ⟨u, hu, heq⟩ := Option.map_eq_some_iff.mp h
    cases heq
    obtain ⟨fits, pixels⟩ := rotateOnce_eq_some hu
    exact ⟨rfl, .mapped fits pixels⟩

/-! ### What the process knows about its configuration -/

/-- The flags, and the address scan-out is pinned to. -/
structure SameFlags (s t : State) : Prop where
  pin : t.pin = s.pin
  pinOff : t.pinOff = s.pinOff
  gSweep : t.gSweep = s.gSweep
  gCpucolor : t.gCpucolor = s.gCpucolor

theorem sameFlags_fdSlot (fd : Int) (s : State) : SameFlags s (fdSlot fd s).2 := by
  rw [fdSlot]
  split
  · exact ⟨rfl, rfl, rfl, rfl⟩
  · split <;> exact ⟨rfl, rfl, rfl, rfl⟩


theorem sameFlags_of_turnMapped {q q' : Option Picture} {s t : State}
    (h : turnMapped q s = some (q', t)) : SameFlags s t := by
  cases q with
  | none =>
    cases h
    exact ⟨rfl, rfl, rfl, rfl⟩
  | some p =>
    obtain ⟨u, hu, heq⟩ := Option.map_eq_some_iff.mp h
    cases heq
    have hslot := sameFlags_fdSlot p.fd s
    simp only [rotateOnce] at hu
    split_ifs at hu <;> cases hu
    · exact ⟨hslot.pin, hslot.pinOff, hslot.gSweep, hslot.gCpucolor⟩
    · exact hslot

theorem sameFlags_closeEntry (i : ℕ) (holds : PhysEntry → Bool) (s : State) :
    SameFlags s (closeEntry i holds s) ∧ (closeEntry i holds s).pixels = s.pixels := by
  rw [closeEntry]
  repeat' split
  all_goals exact ⟨⟨rfl, rfl, rfl, rfl⟩, rfl⟩

/-- Recording an address concerns neither the flags nor the memory. -/
theorem sameFlags_sprdcolorRecord (phys : UInt32) (fd : Int) (len : UInt32) (dupfd : Int)
    (s : State) : SameFlags s (sprdcolorRecord phys fd len dupfd s) ∧
      (sprdcolorRecord phys fd len dupfd s).pixels = s.pixels := by
  have hslot : SameFlags s (recordSlot phys s).2 ∧ (recordSlot phys s).2.pixels = s.pixels := by
    rw [recordSlot]
    repeat' split
    · exact sameFlags_closeEntry _ _ s
    · exact ⟨⟨rfl, rfl, rfl, rfl⟩, rfl⟩
    · obtain ⟨⟨h₁, h₂, h₃, h₄⟩, h₅⟩ := sameFlags_closeEntry s.gPhysrr
        (fun e => e.phys ≠ 0 ∧ e.fd > 0) { s with gPhysrr := (s.gPhysrr + 1) % physmap }
      exact ⟨⟨h₁, h₂, h₃, h₄⟩, h₅⟩
  obtain ⟨⟨h₁, h₂, h₃, h₄⟩, h₅⟩ := hslot
  simp only [sprdcolorRecord, dup]
  split_ifs
  · exact ⟨⟨rfl, rfl, rfl, rfl⟩, rfl⟩
  · exact ⟨⟨h₁, h₂, h₃, h₄⟩, h₅⟩
  · exact ⟨⟨h₁, h₂, h₃, h₄⟩, h₅⟩

/-- What the process has found out about the files is what they say. -/
structure Flags (files : Files) (s : State) : Prop where
  pinOff : ∀ b ∈ s.pinOff, b = files.nopin
  gSweep : ∀ b ∈ s.gSweep, b = files.hwcolor.isSome
  gCpucolor : ∀ b ∈ s.gCpucolor, b = !files.nocpucolor

theorem Flags.of_same {files : Files} {s t : State} (h : Flags files s) (same : SameFlags s t) :
    Flags files t :=
  ⟨same.pinOff ▸ h.pinOff, same.gSweep ▸ h.gSweep, same.gCpucolor ▸ h.gCpucolor⟩

theorem flags_loaded (files : Files) (openFds : Int → Option ℕ) (pixels : ℕ → List UInt8) :
    Flags files (loaded openFds pixels) :=
  ⟨by simp [loaded], by simp [loaded], by simp [loaded]⟩

/-- The address that is presented instead of `phys`. -/
def State.pinned (s : State) (files : Files) (phys : UInt32) : UInt32 :=
  if files.nopin then phys else if s.pin = 0 then phys else s.pin

theorem pinOsd_eq {files : Files} {s : State} (hs : Flags files s) (o : OvSetting) :
    pinOsd files o s = ({ o with buffer := s.pinned files o.buffer },
      { s with
        pinOff := some files.nopin
        pin := if files.nopin then s.pin else s.pinned files o.buffer }) := by
  have hoff : s.pinOff.getD files.nopin = files.nopin := by
    rcases hb : s.pinOff with _ | b
    · rfl
    · exact hs.pinOff b hb
  simp only [pinOsd, hoff, Option.some.injEq, State.pinned]
  split_ifs <;> simp_all

theorem readSweep_eq {files : Files} {s : State} (hs : Flags files s) (hw : files.hwcolor = none) :
    readSweep files s = { s with gSweep := some false } := by
  rw [readSweep]
  rcases hb : s.gSweep with _ | b
  · simp [hw]
  · have hfalse : b = false := by simpa [hw] using hs.gSweep b hb
    change s = { s with gSweep := some false }
    rw [← hfalse, ← hb]

/-- **What `handle_osd` does** with a setting it deals with, when nothing forces a permutation on
the hardware: it presents the address it pinned, turns the picture there, and remembers no more
about its configuration than the files say. -/
theorem handleOsd_spec {files : Files} {granted : Bool} {o o' : OvSetting} {s t : State}
    {q : Option Picture} (hs : Flags files s) (hw : files.hwcolor = none) (ho : o.ForOsd)
    (h : handleOsd files granted o s = some (o', q, t)) :
    o' = { o with buffer := s.pinned files o.buffer } ∧
      t.pin = (if files.nopin then s.pin else s.pinned files o.buffer) ∧
      q = (if files.nocpucolor then none else mapOsd granted o' s) ∧
      Presented s t q ∧ Flags files t := by
  have hflags : Flags files { s with
      pinOff := some files.nopin
      pin := if files.nopin then s.pin else s.pinned files o.buffer } :=
    ⟨by simp, hs.gSweep, hs.gCpucolor⟩
  have hread := readSweep_eq hflags hw
  have hcolour : s.gCpucolor.getD (!files.nocpucolor) = !files.nocpucolor := by
    rcases hb : s.gCpucolor with _ | b
    · rfl
    · exact hs.gCpucolor b hb
  simp only [handleOsd, not_not.mpr ho, if_false, pinOsd_eq hs, hread, hcolour,
    Option.some.injEq, Bool.false_eq_true] at h
  by_cases hc : files.nocpucolor
  · simp only [hc, Bool.not_true, if_true, Option.some.injEq, Prod.mk.injEq] at h
    obtain ⟨rfl, rfl, rfl⟩ := h
    exact ⟨rfl, rfl, by simp [hc], .unmapped rfl, ⟨by simp, by simp [hw], by simp [hc]⟩⟩
  · simp only [hc, Bool.not_false, Bool.true_eq_false, if_false] at h
    obtain ⟨⟨q', u⟩, hturn, heq⟩ := Option.map_eq_some_iff.mp h
    simp only [Prod.mk.injEq] at heq
    obtain ⟨rfl, rfl, rfl⟩ := heq
    obtain ⟨rfl, hdone⟩ := presented_of_turnMapped hturn
    have same := sameFlags_of_turnMapped hturn
    refine ⟨rfl, same.pin, by simp [hc]; rfl, ?_, Flags.of_same ⟨?_, ?_, ?_⟩ same⟩
    · generalize mapOsd granted _ _ = q at hdone
      cases hdone with
      | unmapped pixels => exact .unmapped pixels
      | mapped fits pixels => exact .mapped fits pixels
    · simp
    · simp [hw]
    · simp [hc]

end Shim

end A1000
