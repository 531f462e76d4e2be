import A1000.Composer.Hwc2on1
import A1000.Lib.Run
import A1000.Lib.Heap
import Mathlib.Data.Int.Notation
import Mathlib.Data.List.Sort

/-!
# The adapter between HWC 2 and HWC 1

`HWC2On1Adapter` keeps displays and layers for a client that speaks HWC 2. When the client validates
a display, `prepareAllDisplays` writes down the layers of all displays, bottom to top, and asks the
vendor's HWC 1 what it takes; when the client presents it, `setAllDisplays` has HWC 1 show them and
collects the fences. In between the client goes on to change layers, and displays come and go.

A run interleaves the calls of the client and the events of the vendor. They do not overlap: each is
a step, although `registerCallback`, `hwc1Vsync` and `hwc1Hotplug` give up `mStateMutex` before they
call the client. `step` has no result where the source goes through a null pointer, or to memory
that has been freed. All displays have an active configuration, the one `initializeActiveConfig` has
set, and a number under HWC 1. Floats are a type with the operations that are made on them.

## Main definitions

* `Adapter.Device.Layer`, `Adapter.Device.Display`, `Adapter.Device.Sys` — the state
* `Adapter.Device.LayerState.applyState` — a layer, written down for HWC 1
* `Adapter.Device.prepareAllDisplays`, `Adapter.Device.setAllDisplays`
* `Adapter.Device.registerCallback`, `Adapter.Device.hwc1Hotplug` — what is told to the client
* `Adapter.Device.step` — the whole
-/

namespace A1000

namespace Adapter

namespace Device

open Composer

/-! ### Layers -/

structure Rect where
  left : ℤ
  top : ℤ
  right : ℤ
  bottom : ℤ
  deriving DecidableEq, Repr

structure Color where
  r : UInt8
  g : UInt8
  b : UInt8
  a : UInt8
  deriving DecidableEq, Repr

inductive BlendMode
  | invalid
  | none
  | premultiplied
  | coverage
  deriving DecidableEq, Repr

variable (F : Type*)

structure FRect where
  left : F
  top : F
  right : F
  bottom : F
  deriving DecidableEq, Repr

/-- What the setters of a layer write. A buffer and a stream are numbers, 0 for none. -/
structure LayerState where
  buffer : ℕ
  acquireFence : ℤ
  surfaceDamage : List Rect
  blendMode : BlendMode
  color : Color
  compositionType : Composition
  displayFrame : Rect
  planeAlpha : F
  sidebandStream : ℕ
  sourceCrop : FRect F
  transform : UInt32
  visibleRegion : List Rect
  deriving DecidableEq

/-- The version of HWC 1, and what is done with floats. -/
structure Env where
  minorVersion : ℕ
  zero : F
  minusOne : F
  lessThanOne : F → Bool
  /-- `255 * alpha + 0.5` as a byte. -/
  toByte : F → UInt8
  ceil : F → ℤ
  floor : F → ℤ
  hasUnsupportedBackgroundColor : Composition → Bool

/-- A layer, with the fences that have been added to `mReleaseFence`. -/
structure Layer where
  display : ℕ
  state : LayerState F
  z : ℕ
  releaseFences : List ℤ
  deriving DecidableEq

inductive LayerCall
  | setBuffer (buffer : ℕ) (acquireFence : ℤ)
  | setSurfaceDamage (damage : List Rect)
  | setBlendMode (mode : BlendMode)
  | setColor (color : Color)
  | setCompositionType (type : Composition)
  | setDataspace
  | setDisplayFrame (frame : Rect)
  | setPlaneAlpha (alpha : F)
  | setSidebandStream (stream : ℕ)
  | setSourceCrop (crop : FRect F)
  | setTransform (transform : UInt32)
  | setVisibleRegion (visible : List Rect)
  deriving DecidableEq

variable {F}

/-- The setters. Surface damage is supported from version 5 on. -/
def LayerState.call (minorVersion : ℕ) (x : LayerState F) : LayerCall F → LayerState F
  | .setBuffer buffer acquireFence => { x with buffer := buffer, acquireFence := acquireFence }
  | .setSurfaceDamage damage => if minorVersion < 5 then x else { x with surfaceDamage := damage }
  | .setBlendMode mode => { x with blendMode := mode }
  | .setColor color => { x with color := color }
  | .setCompositionType type => { x with compositionType := type }
  | .setDataspace => x
  | .setDisplayFrame frame => { x with displayFrame := frame }
  | .setPlaneAlpha alpha => { x with planeAlpha := alpha }
  | .setSidebandStream stream => { x with sidebandStream := stream }
  | .setSourceCrop crop => { x with sourceCrop := crop }
  | .setTransform transform => { x with transform := transform }
  | .setVisibleRegion visible =>
    if x.visibleRegion ≠ visible then { x with visibleRegion := visible } else x

/-- The setters that call `markGeometryChanged`. -/
def LayerCall.marks (x : LayerState F) : LayerCall F → Bool
  | .setBuffer .. => false
  | .setSurfaceDamage _ => false
  | .setDataspace => false
  | .setVisibleRegion visible => x.visibleRegion ≠ visible
  | _ => true

/-- What the two versions of HWC 1 that write the source crop differently are given. -/
inductive SourceCrop (F : Type*)
  | integral (crop : Rect)
  | floating (crop : FRect F)
  deriving DecidableEq

/-- A union in `hwc_layer_1_t`. -/
inductive Content
  | handle (buffer : ℕ)
  | backgroundColor (color : Color)
  | sidebandStream (stream : ℕ)
  deriving DecidableEq, Repr

/-- A layer as it is written down for HWC 1. -/
structure Requested (F : Type*) where
  type : Hwc1Layer
  blending : ℕ
  displayFrame : Rect
  planeAlpha : UInt8
  sourceCrop : SourceCrop F
  transform : UInt32
  visibleRegionScreen : List Rect
  content : Content
  acquireFence : ℤ
  deriving DecidableEq

def getHwc1Blending : BlendMode → ℕ
  | .coverage => 0x0405
  | .premultiplied => 0x0105
  | _ => 0x0100

/-- What `applyCompositionType` looks at. -/
def LayerState.toLayer (env : Env F) (x : LayerState F) (l : ℕ) : Adapter.Layer where
  id := l
  compositionType := x.compositionType
  translucent := env.lessThanOne x.planeAlpha
  hasUnsupportedBackgroundColor := env.hasUnsupportedBackgroundColor x.compositionType

/-- `applySolidColorState`, `applySidebandState` and `applyBufferState`. -/
def LayerState.content (env : Env F) (x : LayerState F) : Content × ℤ :=
  match x.compositionType with
  | .solidColor =>
    if env.hasUnsupportedBackgroundColor .solidColor then (.handle 0, -1)
    else (.backgroundColor x.color, -1)
  | .sideband => (.sidebandStream x.sidebandStream, -1)
  | _ => (.handle x.buffer, x.acquireFence)

/-- `applyState`, on a layer of zeros whose fences are -1. -/
def LayerState.applyState (env : Env F) (hasColorTransform : Bool) (x : LayerState F) (l : ℕ) :
    Requested F where
  type := (x.toLayer env l).applyCompositionType env.minorVersion hasColorTransform
  blending := getHwc1Blending x.blendMode
  displayFrame := x.displayFrame
  planeAlpha := if env.minorVersion < 2 then 0 else env.toByte x.planeAlpha
  sourceCrop :=
    if env.minorVersion < 3 then
      .integral ⟨env.ceil x.sourceCrop.left, env.ceil x.sourceCrop.top,
        env.floor x.sourceCrop.right, env.floor x.sourceCrop.bottom⟩
    else .floating x.sourceCrop
  transform := x.transform
  visibleRegionScreen := x.visibleRegion
  content := (x.content env).1
  acquireFence := (x.content env).2

/-- A new layer. -/
def Layer.ofDisplay (env : Env F) (d : ℕ) : Layer F where
  display := d
  state :=
    { buffer := 0
      acquireFence := -1
      surfaceDamage := []
      blendMode := .none
      color := ⟨0, 0, 0, 0⟩
      compositionType := .invalid
      displayFrame := ⟨0, 0, -1, -1⟩
      planeAlpha := env.zero
      sidebandStream := 0
      sourceCrop := ⟨env.zero, env.zero, env.minusOne, env.minusOne⟩
      transform := 0
      visibleRegion := [] }
  z := 0
  releaseFences := []

/-! ### Displays -/

/-- A display. Its layers are those of `mLayers`, bottom to top; `layerMap` are those of
`mHwc1LayerMap`, and `requested` and `contents` what has been written down for HWC 1, and what has
become of the types. -/
structure Display (F : Type*) where
  hwc1Id : ℕ
  layers : List ℕ
  layerMap : List ℕ
  requested : List (Requested F)
  contents : Option Contents
  changes : Option Changes
  hasColorTransform : Bool
  geometryChanged : Bool
  clientTarget : ℕ × ℤ
  outputBuffer : ℕ × ℤ
  retireFences : List ℤ
  deriving DecidableEq

/-- A new display. -/
def Display.ofHwc1Id (c : ℕ) : Display F where
  hwc1Id := c
  layers := []
  layerMap := []
  requested := []
  contents := none
  changes := none
  hasColorTransform := false
  geometryChanged := false
  clientTarget := (0, -1)
  outputBuffer := (0, -1)
  retireFences := []

/-- A display as HWC 1 is asked about it. -/
structure Asked (F : Type*) where
  display : ℕ
  geometryChanged : Bool
  hasColorTransform : Bool
  outbuf : ℕ × ℤ
  layers : List (ℕ × Requested F)
  deriving DecidableEq

/-- A display as HWC 1 is to show it: its layers, with their types and acquire fences, and the
target. -/
structure Shown where
  display : ℕ
  layers : List (ℕ × Hwc1Layer × ℤ)
  target : Option (ℕ × ℤ)
  deriving DecidableEq

/-- The fences HWC 1 returns for a display; the last release fence is that of the target. -/
structure Fences where
  retire : ℤ
  release : ℕ → ℤ

/-- `SortLayersByZ`; a layer goes behind those it is level with. -/
def insertByZ (z : ℕ → ℕ) (l : ℕ) (layers : List ℕ) : List ℕ :=
  layers.orderedInsert (fun a b => z a < z b) l

/-- The layers, written down. -/
def Display.written (env : Env F) (layer : ℕ → Layer F) (x : Display F) : List (Requested F) :=
  x.layers.map fun l => (layer l).state.applyState env x.hasColorTransform l

/-- `Display::prepare`. -/
def Display.prepare (env : Env F) (layer : ℕ → Layer F) (x : Display F) : Display F :=
  { x with
    layerMap := x.layers
    requested := x.written env layer
    contents := some ⟨(x.written env layer).map (·.type), ⟨⟨hwcFramebufferTarget, 0⟩, 0⟩⟩
    geometryChanged := false }

def Display.asked (env : Env F) (layer : ℕ → Layer F) (d : ℕ) (x : Display F) : Asked F :=
  ⟨d, x.geometryChanged, x.hasColorTransform, x.outputBuffer,
    x.layers.zip (x.written env layer)⟩

/-- The layers of HWC 2 behind those of HWC 1. -/
def Display.mapped (env : Env F) (layer : ℕ → Layer F) (x : Display F) : List Adapter.Layer :=
  x.layerMap.map fun l => (layer l).state.toLayer env l

/-- The contents go back to the display, and `generateChanges` compares the types. -/
def Display.receive (env : Env F) (layer : ℕ → Layer F) (k : Contents) (x : Display F) :
    Display F :=
  { x with contents := some k, changes := some (generateChanges (x.mapped env layer) k) }

/-- The layers that HWC 1 does not take keep no acquire fence. -/
def dropFence (r : Requested F) (k : Hwc1Layer) : Requested F :=
  if k.compositionType = hwcFramebuffer then { r with acquireFence := -1 } else r

def Display.types (x : Display F) : List Hwc1Layer := (x.contents.map (·.layers)).getD []

/-- `Display::set`, of a display that has been validated. -/
def Display.set (x : Display F) : Display F :=
  { x with requested := List.zipWith dropFence x.requested x.types, changes := none }

/-- The acquire fences `Display::set` closes. -/
def Display.closed (x : Display F) : List ℤ :=
  (x.requested.zip x.types).filterMap fun t =>
    if t.2.compositionType = hwcFramebuffer then some t.1.acquireFence else none

/-- What HWC 1 is given after `Display::set`. -/
def Display.shown (d : ℕ) (x : Display F) : Shown where
  display := d
  layers := x.layerMap.zip (x.types.zip (x.requested.map (·.acquireFence)))
  target :=
    if x.contents.any fun k => k.target.compositionType = hwcFramebufferTarget then
      some x.clientTarget
    else none

/-! ### The adapter -/

inductive Callback
  | hotplug
  | refresh
  | vsync
  deriving DecidableEq, Repr

/-- The adapter. Every layer that has been made stands in `layer`, under its number; `known` are
those of `mLayers`. `contents` are the displays whose contents are in `mHwc1Contents`. -/
structure Sys (F : Type*) where
  layer : ℕ → Layer F
  nextLayer : ℕ
  known : ℕ → Bool
  display : ℕ → Option (Display F)
  nextDisplay : ℕ
  displayMap : ℕ → Option ℕ
  virtualDisplay : Option ℕ
  contents : List (Option ℕ)
  callbacks : Callback → Bool
  hasPendingInvalidate : Bool
  pendingVsyncs : List (ℕ × ℤ)
  pendingHotplugs : List (ℕ × ℤ)

inductive Error
  | none
  | badDisplay
  | badLayer
  | hasChanges
  | noResources
  | notValidated
  deriving DecidableEq, Repr

/-- What is called outside: HWC 1, with what it returns, the client, and `close`. -/
inductive Call (F : Type*)
  | prepare (asked : List (Option (Asked F)))
  | set (shown : List (Option Shown)) (fences : ℕ → Fences)
  | refresh (d : ℕ)
  | vsync (d : ℕ) (timestamp : ℤ)
  | hotplug (d : ℕ) (connection : ℤ)
  | close (fd : ℤ)

structure Output (F : Type*) where
  error : Error
  outId : Option ℕ
  calls : List (Call F)

def Output.fail (e : Error) : Output F := ⟨e, none, []⟩

def Output.ok : Output F := ⟨.none, none, []⟩

def Sys.modifyDisplay (s : Sys F) (d : ℕ) (f : Display F → Display F) : Sys F :=
  { s with display := Heap.modify s.display d f }

def Sys.modifyLayer (s : Sys F) (l : ℕ) (f : Layer F → Layer F) : Sys F :=
  { s with layer := fun k => if k = l then f (s.layer k) else s.layer k }

def Display.markGeometryChanged (x : Display F) : Display F := { x with geometryChanged := true }

/-- A display is put under the number `c` of HWC 1. -/
def Sys.addDisplay (s : Sys F) (c : ℕ) : Sys F :=
  { s with
    display := Function.update s.display s.nextDisplay (some (.ofHwc1Id c))
    nextDisplay := s.nextDisplay + 1
    displayMap := Function.update s.displayMap c (some s.nextDisplay) }

def Sys.removeDisplay (s : Sys F) (c d : ℕ) : Sys F :=
  { s with
    display := Function.update s.display d none
    displayMap := Function.update s.displayMap c none }

def hwcDisplayPrimary : ℕ := 0

def hwcDisplayExternal : ℕ := 1

def hwcDisplayVirtual : ℕ := 2

def connected : ℤ := 1

def disconnected : ℤ := 2

/-- After `populatePrimary`; numbers begin with 1. -/
def start (env : Env F) : Sys F where
  layer := fun _ => .ofDisplay env 0
  nextLayer := 1
  known := fun _ => false
  display := fun d => if d = 1 then some (.ofHwc1Id hwcDisplayPrimary) else none
  nextDisplay := 2
  displayMap := fun c => if c = hwcDisplayPrimary then some 1 else none
  virtualDisplay := none
  contents := []
  callbacks := fun _ => false
  hasPendingInvalidate := false
  pendingVsyncs := []
  pendingHotplugs := []

/-! ### Calls for layers -/

def Display.insertLayer (z : ℕ → ℕ) (l : ℕ) (x : Display F) : Display F :=
  { x with layers := insertByZ z l x.layers, geometryChanged := true }

def Display.eraseLayer (l : ℕ) (x : Display F) : Display F :=
  { x with layers := x.layers.erase l, geometryChanged := true }

def createLayer (env : Env F) (s : Sys F) (d : ℕ) : Sys F :=
  let l := s.nextLayer
  let layer := Function.update s.layer l (.ofDisplay env d)
  let s := { s with layer := layer, nextLayer := l + 1, known := Function.update s.known l true }
  s.modifyDisplay d (.insertLayer (fun k => (s.layer k).z) l)

def destroyLayer (s : Sys F) (d l : ℕ) : Sys F × Error :=
  if ¬ s.known l then (s, .badLayer)
  else
    let s := { s with known := Function.update s.known l false }
    (s.modifyDisplay d (.eraseLayer l), .none)

def updateLayerZ (s : Sys F) (d l : ℕ) (x : Display F) (z : ℕ) : Sys F × Error :=
  if ¬ s.known l then (s, .badLayer)
  else if l ∈ x.layers then
    if (s.layer l).z = z then (s, .none)
    else
      let s := s.modifyLayer l fun y => { y with z := z }
      (s.modifyDisplay d fun x => (x.eraseLayer l).insertLayer (fun k => (s.layer k).z) l, .none)
  else (s, .badLayer)

/-- The layer is there, and the display it was made for. -/
def callLayer (env : Env F) (s : Sys F) (l : ℕ) (call : LayerCall F) : Sys F :=
  let marks := call.marks (s.layer l).state
  let s := s.modifyLayer l fun y => { y with state := y.state.call env.minorVersion call }
  if marks then s.modifyDisplay (s.layer l).display Display.markGeometryChanged else s

/-! ### Validating -/

/-- The displays that HWC 1 is asked about; there are at least two. -/
def Sys.slots (env : Env F) (s : Sys F) : List (Option ℕ) :=
  [s.displayMap hwcDisplayPrimary, s.displayMap hwcDisplayExternal] ++
    if 3 ≤ env.minorVersion then [s.displayMap hwcDisplayVirtual] else []

/-- Every display is prepared. -/
def Sys.prepareEach (env : Env F) (s : Sys F) : Sys F :=
  { s with display := fun d => (s.display d).map (Display.prepare env s.layer) }

/-- The received contents are returned to their displays. -/
def Sys.giveBack (env : Env F) : Sys F → List (Option ℕ) → List (Option Contents) → Sys F
  | s, some d :: ds, some k :: ks => (s.modifyDisplay d (.receive env s.layer k)).giveBack env ds ks
  | s, _ :: ds, _ :: ks => s.giveBack env ds ks
  | s, _, _ => s

/-- What HWC 1 is asked. -/
def Sys.asked (env : Env F) (s : Sys F) : List (Option (Asked F)) :=
  (s.slots env).map (Option.bind · fun d => (s.display d).map (Display.asked env s.layer d))

/-- `prepareAllDisplays`, and whether it returns true. -/
def prepareAllDisplays (env : Env F) (s : Sys F) (a₁ a₂ : Answers) :
    Option (Sys F × Bool × List (Call F)) :=
  let asked := s.asked env
  let s := s.prepareEach env
  if s.displayMap hwcDisplayPrimary = none then some (s, false, [])
  -- a number without a display
  else if (s.slots env).any fun o => o.any fun d => (s.display d).isNone then none
  else
    let cs := (s.slots env).map (Option.bind · fun d => (s.display d).bind (·.contents))
    let s := { s with contents := s.slots env }
    some (s.giveBack env (s.slots env) (vendorTypes a₁ a₂ cs), true, [.prepare asked])

def Changes.error (ch : Changes) : Error := if ch.types.isEmpty then .none else .hasChanges

/-- `Display::validate`. -/
def validate (env : Env F) (s : Sys F) (d : ℕ) (x : Display F) (a₁ a₂ : Answers) :
    Option (Sys F × Output F) :=
  match x.changes with
  | some ch => some (s, ⟨Changes.error ch, none, []⟩)
  | none =>
    (prepareAllDisplays env s a₁ a₂).bind fun r =>
      if r.2.1 then
        -- `mChanges` of a display HWC 1 was not asked about
        ((r.1.display d).bind (·.changes)).map fun ch => (r.1, ⟨Changes.error ch, none, r.2.2⟩)
      else some (r.1, ⟨.badDisplay, none, r.2.2⟩)

/-- One change is accepted. -/
def acceptChange (env : Env F) (s : Sys F) (change : ℕ × Composition) : Sys F :=
  if s.known change.1 then callLayer env s change.1 (.setCompositionType change.2) else s

/-- `Display::acceptChanges`. -/
def acceptChanges (env : Env F) (s : Sys F) (d : ℕ) (x : Display F) : Sys F × Error :=
  match x.changes with
  | none => (s, .notValidated)
  | some ch =>
    ((ch.types.foldl (acceptChange env) s).modifyDisplay d fun x =>
      { x with changes := x.changes.map fun ch => { ch with types := [] } }, .none)

/-! ### Presenting -/

/-- The first loop of `setAllDisplays`: whether there was no error, and what was closed. -/
def setEach (s : Sys F) : ℕ → List (Option ℕ) → Option (Sys F × Bool × List ℤ)
  | _, [] => some (s, true, [])
  | c, none :: pushed => setEach s (c + 1) pushed
  | c, some d₀ :: pushed =>
    -- there is no display under the number, or not that display
    (s.displayMap c).bind fun d => (s.display d).bind fun x =>
      match x.changes with
      | none => some (s, false, [])
      | some ch =>
        if ¬ ch.types.isEmpty then some (s, false, [])
        else if d ≠ d₀ then none
        else (setEach (s.modifyDisplay d Display.set) (c + 1) pushed).map fun r =>
          (r.1, r.2.1, x.closed ++ r.2.2)

def addReleaseFence (release : ℕ → ℤ) (s : Sys F) (t : ℕ × ℕ) : Sys F :=
  s.modifyLayer t.1 fun y => { y with releaseFences := y.releaseFences ++ [release t.2] }

/-- `addRetireFence` and `addReleaseFences`, with what is closed. -/
def addFences (s : Sys F) (d : ℕ) (x : Display F) (r : Fences) : Sys F × List ℤ :=
  let s := s.modifyDisplay d fun x => { x with retireFences := x.retireFences ++ [r.retire] }
  (x.layerMap.zipIdx.foldl (addReleaseFence r.release) s,
    if r.release x.layerMap.length ≠ -1 then [r.release x.layerMap.length] else [])

/-- The last loop of `setAllDisplays`. -/
def addEach (s : Sys F) (fences : ℕ → Fences) : ℕ → List (Option ℕ) → Sys F × List ℤ
  | _, [] => (s, [])
  | c, none :: pushed => addEach s fences (c + 1) pushed
  | c, some _ :: pushed =>
    match (s.displayMap c).bind fun d => (s.display d).map fun x => (d, x) with
    | none => addEach s fences (c + 1) pushed
    | some (d, x) =>
      let r := addFences s d x (fences c)
      let r' := addEach r.1 fences (c + 1) pushed
      (r'.1, r.2 ++ r'.2)

/-- What HWC 1 is to show. -/
def Sys.shown (s : Sys F) : List (Option Shown) :=
  s.contents.map (Option.bind · fun d => (s.display d).map (Display.shown d))

/-- `setAllDisplays`; HWC 1 returns the fences. -/
def setAllDisplays (s : Sys F) (fences : ℕ → Fences) : Option (Sys F × Error × List (Call F)) :=
  (setEach s 0 s.contents).map fun r =>
    if ¬ r.2.1 then (r.1, .notValidated, r.2.2.map .close)
    else
      let r' := addEach r.1 fences 0 r.1.contents
      (r'.1, .none, r.2.2.map .close ++ [.set r.1.shown fences] ++ r'.2.map .close)

/-- `Display::present`, without the retire fence. -/
def present (s : Sys F) (x : Display F) (fences : ℕ → Fences) : Option (Sys F × Output F) :=
  match x.changes with
  | none => some (s, .ok)
  | some _ => (setAllDisplays s fences).map fun r => (r.1, ⟨r.2.1, none, r.2.2⟩)

/-! ### Callbacks -/

/-- The displays, in the order of `mDisplays`. -/
def Sys.displayIds (s : Sys F) : List ℕ :=
  (List.range s.nextDisplay).filter fun d => (s.display d).isSome

/-- What has been held back for displays that are there. -/
def Sys.translate (s : Sys F) (pending : List (ℕ × ℤ)) : List (ℕ × ℤ) :=
  pending.filterMap fun t => (s.displayMap t.1).map fun d => (d, t.2)

/-- `registerCallback`, with a pointer or without one. -/
def registerCallback (s : Sys F) (c : Callback) (pointer : Bool) : Sys F × List (Call F) :=
  let s := { s with callbacks := Function.update s.callbacks c pointer }
  if ¬ pointer then (s, [])
  else
    match c with
    | .refresh =>
      ({ s with hasPendingInvalidate := false },
        if s.hasPendingInvalidate then s.displayIds.map .refresh else [])
    | .vsync =>
      ({ s with pendingVsyncs := [] },
        (s.translate s.pendingVsyncs).map fun t => .vsync t.1 t.2)
    | .hotplug =>
      (s, (s.translate ((hwcDisplayPrimary, connected) :: s.pendingHotplugs)).map fun t =>
        .hotplug t.1 t.2)

def hwc1Invalidate (s : Sys F) : Sys F × List (Call F) :=
  if ¬ s.callbacks .refresh then ({ s with hasPendingInvalidate := true }, [])
  else (s, s.displayIds.map .refresh)

def hwc1Vsync (s : Sys F) (c : ℕ) (timestamp : ℤ) : Sys F × List (Call F) :=
  if ¬ s.callbacks .vsync then ({ s with pendingVsyncs := s.pendingVsyncs ++ [(c, timestamp)] }, [])
  else (s, ((s.displayMap c).map fun d => .vsync d timestamp).toList)

def hwc1Hotplug (s : Sys F) (c : ℕ) (there : ℤ) : Sys F × List (Call F) :=
  if c ≠ hwcDisplayExternal then (s, [])
  else if ¬ s.callbacks .hotplug then
    ({ s with pendingHotplugs := s.pendingHotplugs ++ [(c, there)] }, [])
  else
    match s.displayMap c with
    | none =>
      if there = 0 then (s, [])
      else (s.addDisplay hwcDisplayExternal, [.hotplug s.nextDisplay connected])
    | some d =>
      if there ≠ 0 then (s, [])
      else (s.removeDisplay hwcDisplayExternal d, [.hotplug d disconnected])

/-! ### Runs -/

inductive Input (F : Type*)
  | createVirtualDisplay
  | destroyVirtualDisplay (d : ℕ)
  | registerCallback (c : Callback) (pointer : Bool)
  | createLayer (d : ℕ)
  | destroyLayer (d l : ℕ)
  | updateLayerZ (d l : ℕ) (z : ℕ)
  | callLayer (d l : ℕ) (call : LayerCall F)
  | setColorTransform (d : ℕ) (identity : Bool)
  | setClientTarget (d target : ℕ) (acquireFence : ℤ)
  | setOutputBuffer (d buffer : ℕ) (releaseFence : ℤ)
  | validate (d : ℕ) (a₁ a₂ : Answers)
  | acceptChanges (d : ℕ)
  | present (d : ℕ) (fences : ℕ → Fences)
  | hwc1Invalidate
  | hwc1Vsync (c : ℕ) (timestamp : ℤ)
  | hwc1Hotplug (c : ℕ) (there : ℤ)

/-- A call for a display goes through `getDisplay`. -/
def onDisplay (s : Sys F) (d : ℕ) (f : Display F → Option (Sys F × Output F)) :
    Option (Sys F × Output F) :=
  match s.display d with
  | none => some (s, .fail .badDisplay)
  | some x => f x

/-- A call for a layer goes through `getLayer`, which looks at the display of the layer. -/
def onLayer (s : Sys F) (d l : ℕ) (f : Sys F) : Option (Sys F × Output F) :=
  onDisplay s d fun _ =>
    if ¬ s.known l then some (s, .fail .badLayer)
    else
      (s.display (s.layer l).display).bind fun _ =>
        if (s.layer l).display ≠ d then some (s, .fail .badLayer) else some (f, .ok)

def step (env : Env F) (s : Sys F) : Input F → Option (Sys F × Output F)
  | .createVirtualDisplay =>
    if s.virtualDisplay.isSome then some (s, .fail .noResources)
    else
      some ({ s.addDisplay hwcDisplayVirtual with virtualDisplay := some s.nextDisplay },
        ⟨.none, some s.nextDisplay, []⟩)
  | .destroyVirtualDisplay d =>
    if s.virtualDisplay ≠ some d then some (s, .fail .badDisplay)
    else some ({ s.removeDisplay hwcDisplayVirtual d with virtualDisplay := none }, .ok)
  | .registerCallback c pointer =>
    let r := registerCallback s c pointer
    some (r.1, ⟨.none, none, r.2⟩)
  | .createLayer d =>
    onDisplay s d fun _ => some (createLayer env s d, ⟨.none, some s.nextLayer, []⟩)
  | .destroyLayer d l =>
    onDisplay s d fun _ =>
      let r := destroyLayer s d l
      some (r.1, ⟨r.2, none, []⟩)
  | .updateLayerZ d l z =>
    onDisplay s d fun x =>
      let r := updateLayerZ s d l x z
      some (r.1, ⟨r.2, none, []⟩)
  | .callLayer d l call => onLayer s d l (callLayer env s l call)
  | .setColorTransform d identity =>
    onDisplay s d fun _ =>
      some (s.modifyDisplay d fun x => { x with hasColorTransform := !identity }, .ok)
  | .setClientTarget d target acquireFence =>
    onDisplay s d fun _ =>
      some (s.modifyDisplay d fun x => { x with clientTarget := (target, acquireFence) }, .ok)
  | .setOutputBuffer d buffer releaseFence =>
    onDisplay s d fun _ =>
      some (s.modifyDisplay d fun x => { x with outputBuffer := (buffer, releaseFence) }, .ok)
  | .validate d a₁ a₂ => onDisplay s d fun x => validate env s d x a₁ a₂
  | .acceptChanges d =>
    onDisplay s d fun x =>
      let r := acceptChanges env s d x
      some (r.1, ⟨r.2, none, []⟩)
  | .present d fences => onDisplay s d fun x => present s x fences
  | .hwc1Invalidate =>
    let r := hwc1Invalidate s
    some (r.1, ⟨.none, none, r.2⟩)
  | .hwc1Vsync c timestamp =>
    let r := hwc1Vsync s c timestamp
    some (r.1, ⟨.none, none, r.2⟩)
  | .hwc1Hotplug c there =>
    let r := hwc1Hotplug s c there
    some (r.1, ⟨.none, none, r.2⟩)

end Device

end Adapter

end A1000
