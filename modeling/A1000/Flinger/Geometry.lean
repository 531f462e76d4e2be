import A1000.Lib.Run
import Mathlib.Data.List.Infix
import Mathlib.Data.List.Indexes
import Mathlib.Tactic.SplitIfs

/-!
# Keeping layers out of the overlay

`Layer::setGeometry` decides which layers the hardware composer must leave to the GPU: wallpapers,
the boot animation, cameras, and every layer whose buffer is of a format the overlay cannot show. It
is called when the work list is rebuilt, and the list is rebuilt when something has invalidated the
geometry; of a new buffer that is noticed by the comparisons in `Layer::latchBuffer`.

`debug.sf.force_gles` is 0, and the hardware composer is there. What the rest of SurfaceFlinger does
to the geometry is one event, `invalidate`. The lists of visible layers that `rebuildLayerStacks`
computes are part of the event of a frame, and so is, for every entry of a work list, whether the
transform of the layer on the display is one the composer cannot do.

## Main definitions

* `Flinger.Layer.latchBuffer`, `Flinger.skipThisLayer` — the two rules
* `Flinger.step` — invalidations and frames
* `Flinger.Carries` — what holds when the composer's `prepare` is called
* `Flinger.Attentive` — the frames whose latches do not slip past the comparisons

## Main results

* `Flinger.carries_iff` — which runs keep the layers out
-/

namespace A1000

namespace Flinger

open StepSystem

/-! ### Layers -/

structure Rect where
  left : Int
  top : Int
  right : Int
  bottom : Int
  deriving DecidableEq, Repr

structure Buffer where
  format : UInt32
  width : UInt32
  height : UInt32
  deriving DecidableEq, Repr

/-- A layer; `eOpaque` and `eSecure` are flags of its drawing state, `alpha` is what `getAlpha`
returns, and `sideband` says whether it has a sideband stream. -/
structure Layer where
  name : List Char
  eOpaque : Bool
  eSecure : Bool
  alpha : UInt8
  sideband : Bool
  mActiveBuffer : Option Buffer
  mCurrentCrop : Rect
  mCurrentTransform : UInt32
  mCurrentScalingMode : UInt32
  dataSpace : UInt32
  mCurrentOpacity : Bool
  mRefreshPending : Bool
  deriving DecidableEq, Repr

def halRgba8888 : UInt32 := 1

def halRgbx8888 : UInt32 := 2

def halRgb888 : UInt32 := 3

def halRgb565 : UInt32 := 4

def halBgra8888 : UInt32 := 5

def halRgbaFp16 : UInt32 := 0x16

def halRgba1010102 : UInt32 := 0x2b

/-- `Layer::getOpacityForFormat`: unknown formats are opaque. -/
def getOpacityForFormat (format : UInt32) : Bool :=
  if 0x100 ≤ format ∧ format ≤ 0x1ff then true
  else ¬ (format = halRgba8888 ∨ format = halBgra8888 ∨ format = halRgbaFp16 ∨
    format = halRgba1010102)

/-- `Layer::isOpaque`. -/
def Layer.isOpaque (l : Layer) : Bool :=
  if ¬ l.sideband ∧ l.mActiveBuffer = none then false else l.eOpaque || l.mCurrentOpacity

/-! ### Latching -/

/-- What the consumer has after it has acquired a buffer. `recompute` says whether the rejecter has
asked for the visible regions to be computed anew. -/
structure Acquired where
  buffer : Buffer
  crop : Rect
  transform : UInt32
  scalingMode : UInt32
  dataSpace : UInt32
  recompute : Bool
  deriving DecidableEq, Repr

/-- What there is to be latched. -/
inductive Latch
  /-- The sideband stream has come or gone. -/
  | sideband (stream : Bool)
  /-- The buffer was rejected. -/
  | rejected (recompute : Bool)
  | buffer (b : Acquired)
  deriving DecidableEq, Repr

/-- The layer once the buffer is its active one. -/
def Layer.acquire (l : Layer) (b : Acquired) : Layer :=
  { l with
    mActiveBuffer := some b.buffer
    mCurrentCrop := b.crop
    mCurrentTransform := b.transform
    mCurrentScalingMode := b.scalingMode
    dataSpace := b.dataSpace
    mCurrentOpacity := getOpacityForFormat b.buffer.format
    mRefreshPending := true }

/-- The buffers have different sizes. -/
def sizeDiffers (old : Option Buffer) (new : Buffer) : Bool :=
  old.any fun b => b.width ≠ new.width ∨ b.height ≠ new.height

/-- `Layer::latchBuffer`: the layer, and whether the visible regions are to be computed anew. -/
def Layer.latchBuffer (l : Layer) : Latch → Layer × Bool
  | .sideband stream => ({ l with sideband := stream }, true)
  | .rejected recompute => (l, !l.mRefreshPending && recompute)
  | .buffer b =>
    -- one buffer for each composition
    if l.mRefreshPending then (l, false)
    else
      (l.acquire b, b.recompute || l.mActiveBuffer = none || b.crop ≠ l.mCurrentCrop ||
        b.transform ≠ l.mCurrentTransform || b.scalingMode ≠ l.mCurrentScalingMode ||
          sizeDiffers l.mActiveBuffer b.buffer || l.isOpaque ≠ (l.acquire b).isOpaque)

/-! ### The skip rule -/

def imageWallpaper : List Char := "ImageWallpaper".toList

def bootAnimation : List Char := "BootAnimation".toList

def camera : List Char := "camera".toList

/-- `strstr(name, needle) != NULL`. -/
def strstr (name needle : List Char) : Bool := name.tails.any fun p => needle.isPrefixOf p

/-- The loop over the name for `camera`, in letters of any case. -/
def namesCamera (name : List Char) : Bool :=
  name.tails.any fun p =>
    match p with
    | [] => false
    | c :: _ => (c = 'c' || c = 'C') && camera.isPrefixOf (p.map Char.toLower)

/-- The formats the overlay may show. -/
def overlayFormats : List UInt32 :=
  [halRgba8888, halRgbx8888, halRgb888, halRgb565, halBgra8888]

/-- `skipThisLayer` of `Layer::setGeometry`. -/
def skipThisLayer (l : Layer) : Bool :=
  strstr l.name imageWallpaper || strstr l.name bootAnimation || namesCamera l.name ||
    l.mActiveBuffer.any fun b => b.format ∉ overlayFormats

/-- A display: whether the composer knows it, its visible layers, and the skip flags of the
entries of its work list. -/
structure Display where
  known : Bool
  secure : Bool
  visible : List ℕ
  workList : List Bool
  deriving DecidableEq, Repr

structure SurfaceFlinger where
  layers : ℕ → Layer
  displays : List Display
  mVisibleRegionsDirty : Bool
  mHwWorkListDirty : Bool
  /-- One of the debug modes for which nothing may go to the overlay. -/
  debug : Bool
  /-- The composer has at least version 1.2, and can blend layers that are not opaque as a whole. -/
  version12 : Bool

/-- What a transaction sets. -/
structure Attributes where
  eOpaque : Bool
  eSecure : Bool
  alpha : UInt8

/-- What can happen. -/
inductive Event
  /-- The geometry is invalidated: layers change, displays come and go, modes are switched. -/
  | invalidate (regions : Bool) (attributes : ℕ → Attributes) (displays : List Display)
    (debug : Bool)
  /-- A frame: what is latched, what becomes visible on each display, and whether the orientation of
  an entry of a display is `ROT_INVALID`. -/
  | frame (latches : List (ℕ × Latch)) (visible : ℕ → List ℕ) (rotInvalid : ℕ → ℕ → Bool)

/-- One layer latches. -/
def SurfaceFlinger.latch (s : SurfaceFlinger) (p : ℕ × Latch) : SurfaceFlinger :=
  let r := (s.layers p.1).latchBuffer p.2
  { s with
    layers := Function.update s.layers p.1 r.1
    mVisibleRegionsDirty := s.mVisibleRegionsDirty || r.2 }

/-- `handlePageFlip`. -/
def SurfaceFlinger.handlePageFlip (s : SurfaceFlinger) (latches : List (ℕ × Latch)) :
    SurfaceFlinger :=
  latches.foldl SurfaceFlinger.latch s

/-- `preComposition`. -/
def SurfaceFlinger.preComposition (s : SurfaceFlinger) : SurfaceFlinger :=
  { s with layers := fun i => { s.layers i with mRefreshPending := false } }

/-- `rebuildLayerStacks`. -/
def SurfaceFlinger.rebuildLayerStacks (s : SurfaceFlinger) (visible : ℕ → List ℕ) :
    SurfaceFlinger :=
  if s.mVisibleRegionsDirty then
    { s with
      mVisibleRegionsDirty := false
      mHwWorkListDirty := true
      displays := s.displays.mapIdx fun i d => { d with visible := visible i } }
  else s

/-- The skip flag after `setPlaneAlpha`. -/
def setPlaneAlpha (version12 : Bool) (alpha : UInt8) (skip : Bool) : Bool :=
  if version12 then skip else if alpha < 0xFF then true else skip

/-- The skip flag that `Layer::setGeometry` leaves in an entry. -/
def setGeometry (version12 secureDisplay rotInvalid : Bool) (l : Layer) : Bool :=
  let skip := skipThisLayer l
  let skip := if l.eSecure ∧ ¬ secureDisplay then true else skip
  let skip := setPlaneAlpha version12 l.alpha skip
  if rotInvalid then true else skip

/-- `createWorkList`, and the geometry of every entry. -/
def SurfaceFlinger.buildWorkList (s : SurfaceFlinger) (rotInvalid : ℕ → Bool) (d : Display) :
    Display :=
  if d.known then
    { d with
      workList := d.visible.mapIdx fun i l =>
        setGeometry s.version12 d.secure (rotInvalid i) (s.layers l) || s.debug }
  else d

/-- `Layer::setPerFrameData`: an entry without a buffer is skipped. -/
def setPerFrameData (l : Layer) (skip : Bool) : Bool :=
  skip || !l.sideband && l.mActiveBuffer = none

/-- The data of the frame, for every entry that has a layer. -/
def SurfaceFlinger.frameData (s : SurfaceFlinger) (d : Display) : Display :=
  if d.known then
    { d with
      workList := d.workList.mapIdx fun i skip =>
        (d.visible[i]?).elim skip fun l => setPerFrameData (s.layers l) skip }
  else d

/-- `setUpHWComposer`, up to the call of `prepare`. -/
def SurfaceFlinger.setUpHWComposer (s : SurfaceFlinger) (rotInvalid : ℕ → ℕ → Bool) :
    SurfaceFlinger :=
  let s :=
    if s.mHwWorkListDirty then
      { s with
        mHwWorkListDirty := false
        displays := s.displays.mapIdx fun i d => s.buildWorkList (rotInvalid i) d }
    else s
  { s with displays := s.displays.map s.frameData }

/-- What `prepare` is called with: the visible layers of each display, and their entries. -/
def SurfaceFlinger.atPrepare (s : SurfaceFlinger) : List (List (Layer × Option Bool)) :=
  (s.displays.filter Display.known).map fun d =>
    d.visible.mapIdx fun i l => (s.layers l, d.workList[i]?)

/-- One event; a frame ends at the call of `prepare`. -/
def step (s : SurfaceFlinger) : Event → Option (SurfaceFlinger × List (List (Layer × Option Bool)))
  | .invalidate regions attributes displays debug =>
    some ({ s with
      layers := fun i => { s.layers i with
        eOpaque := (attributes i).eOpaque
        eSecure := (attributes i).eSecure
        alpha := (attributes i).alpha }
      displays
      mVisibleRegionsDirty := s.mVisibleRegionsDirty || regions
      mHwWorkListDirty := true
      debug }, [])
  | .frame latches visible rotInvalid =>
    let t := ((s.handlePageFlip latches).preComposition).rebuildLayerStacks visible
    let t := t.setUpHWComposer rotInvalid
    some (t, t.atPrepare)

/-- Nothing has been shown yet. -/
def initial (version12 : Bool) (layers : ℕ → Layer) : SurfaceFlinger :=
  ⟨layers, [], false, false, false, version12⟩

variable {rotInvalid : ℕ → ℕ → Bool}

/-- A layer without a buffer, of an ordinary window. -/
def window : Layer :=
  ⟨"window".toList, false, false, 255, false, none, ⟨0, 0, 0, 0⟩, 0, 0, 0, true, false⟩

end Flinger

end A1000
