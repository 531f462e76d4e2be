import A1000.Lib.Painter
import Mathlib.Data.Finset.Basic
import Mathlib.Data.Finset.Image
import Mathlib.Data.Finset.Union

/-!
# Visible regions and the composition of a frame

`computeVisibleRegions` goes through the layers of a display front to back and works out what is
visible of each, what is covered, and what has to be redrawn. `rebuildLayerStacks` keeps the layers
of which something shows, and `doDisplayComposition` draws them with the GPU, back to front, over
whatever is in the buffer it has been given. A layer is drawn as a whole or not at all, the buffer
is cleared only where no opaque layer is, and only the swap region of it reaches the panel.

A region is a finite set of pixels. The transform of a display neither scales nor shears: it is a
one-to-one map `tr` between the pixels of its layer stack and those of its framebuffer.

## Main definitions

* `Flinger.Regions.Layer`, `Flinger.Regions.Display` — what the traversal reads and keeps
* `Flinger.Regions.computeVisibleRegions`, `Flinger.Regions.rebuildLayerStack` — the regions, and
  the list of the layers to draw
* `Flinger.Regions.doComposeSurfaces`, `Flinger.Regions.doDisplayComposition` — drawing
* `Flinger.Regions.Display.picture` — what a display ought to show: all its layers, each one whole

## Main results

* `Flinger.Regions.clean_of_not_mem_dirty`, `Flinger.Regions.recorded_traverse` — the
  traversal computes the damage and the records of the painter's algorithm
* `Flinger.Regions.doComposeSurfaces_eq_picture` — what is redrawn is the picture
-/

namespace A1000

namespace Flinger

namespace Regions

open Painter

/-! ### Layers -/

/-- What the drawing state of a layer, its buffer and its parents say about it. `alpha` is the alpha
of the layer itself and `getAlpha` the one it is drawn with, which is that of its parents, too.
`bounds` is `computeScreenBounds()`, `mesh` the pixels of the quad that is drawn for it,
`rotInvalid` says that its transform has no orientation, and `transparentHint` is the transparent
region that the application has declared, in the coordinates of the layer stack. `texel` is what the
layer has at a pixel, once filtered, and the same for all displays: a visible layer has a buffer,
and is blacked out on all of them or on none. -/
structure State (P C : Type*) where
  layerStack : ℕ
  isVisible : Bool
  isOpaque : Bool
  alpha : UInt8
  getAlpha : UInt8
  bounds : Finset P
  mesh : Finset P
  preserveRects : Bool
  rotInvalid : Bool
  transparentHint : Finset P
  texel : P → C
  mesh_subset : mesh ⊆ bounds
  /-- A rectangle that is not rotated freely is drawn as it is. -/
  mesh_eq : rotInvalid = false → mesh = bounds

/-- A layer, with what the last traversal has left in it. `id` is the layer itself. -/
structure Layer (P C : Type*) extends State P C where
  id : ℕ
  contentDirty : Bool
  visibleRegion : Finset P
  coveredRegion : Finset P
  visibleNonTransparentRegion : Finset P

variable {P Q C : Type*}

/-- The whole surface, `visibleRegion` before anything is taken from it. -/
def State.footprint (s : State P C) : Finset P := if s.isVisible then s.bounds else ∅

/-- `opaqueRegion`: the footprint of a layer that is taken to hide what is under it. The alpha that
is looked at is that of the layer itself. -/
def State.opaqueRegion (s : State P C) : Finset P :=
  if s.alpha = 255 ∧ s.isOpaque ∧ ¬ s.rotInvalid then s.footprint else ∅

/-- `transparentRegion`: only a translucent layer has one. -/
def State.transparentRegion (s : State P C) : Finset P :=
  if s.isVisible ∧ s.bounds.Nonempty ∧ ¬ s.isOpaque ∧ s.preserveRects then s.transparentHint else ∅

/-- `Layer::draw` at one pixel, `dst` being there: blending is off for an opaque layer that neither
has an alpha of its own nor one of its parents. -/
def State.draw [DecidableEq P] (blend : C → C → C) (s : State P C) (p : P) (dst : C) : C :=
  if p ∈ s.mesh then
    if s.isOpaque ∧ s.getAlpha = 255 then s.texel p else blend (s.texel p) dst
  else dst

/-! ### Displays -/

/-- A display. `primary` and `hwcDisplay` say what kind it is, `swapRectangle` and `partialUpdates`
are its flags; `shown` is what is on the panel. -/
structure Display (P Q C : Type*) where
  layerStack : ℕ
  isDisplayOn : Bool
  tr : P ≃ Q
  bounds : Finset Q
  scissor : Finset Q
  primary : Bool
  hwcDisplay : Bool
  swapRectangle : Bool
  partialUpdates : Bool
  visibleLayersSortedByZ : List ℕ
  undefinedRegion : Finset Q
  dirtyRegion : Finset P
  swapRegion : Finset Q
  shown : Q → C

/-- `Transform::transform` of a region. -/
def Display.transform (hw : Display P Q C) (r : Finset P) : Finset Q := r.map hw.tr.toEmbedding

@[simp] theorem Display.mem_transform {hw : Display P Q C} {r : Finset P} {q : Q} :
    q ∈ hw.transform r ↔ hw.tr.symm q ∈ r := Finset.mem_map_equiv

/-! ### The traversal -/

section Traversal

variable [DecidableEq P]

/-- What is in front of the layer the traversal has come to, and the dirty region so far. -/
structure Above (P : Type*) where
  aboveOpaqueLayers : Finset P
  aboveCoveredLayers : Finset P
  outDirtyRegion : Finset P

/-- The dirty region of a layer, given what is visible of it and covered of it now. -/
def Layer.dirty (l : Layer P C) (visibleRegion coveredRegion : Finset P) : Finset P :=
  if l.contentDirty then
    -- the whole region, as well as the old visible region
    visibleRegion ∪ l.visibleRegion
  else
    -- what was covered, and what is exposed now less what was exposed before
    (visibleRegion ∩ l.coveredRegion) ∪
      ((visibleRegion \ coveredRegion) \ (l.visibleRegion \ l.coveredRegion))

/-- The body of the traversal. -/
def Above.visit (a : Above P) (l : Layer P C) : Above P × Layer P C :=
  let coveredRegion := a.aboveCoveredLayers ∩ l.footprint
  let visibleRegion := l.footprint \ a.aboveOpaqueLayers
  let dirty := l.dirty visibleRegion coveredRegion \ a.aboveOpaqueLayers
  ({ aboveOpaqueLayers := a.aboveOpaqueLayers ∪ l.opaqueRegion
     aboveCoveredLayers := a.aboveCoveredLayers ∪ l.footprint
     outDirtyRegion := a.outDirtyRegion ∪ dirty },
    { l with
      contentDirty := false
      visibleRegion := visibleRegion
      coveredRegion := coveredRegion
      visibleNonTransparentRegion := visibleRegion \ l.transparentRegion })

/-- The layers front to back; those of another stack are left alone. -/
def Above.traverse (stack : ℕ) : Above P → List (Layer P C) → Above P × List (Layer P C)
  | a, [] => (a, [])
  | a, l :: ls =>
    if l.layerStack ≠ stack then
      let r := traverse stack a ls
      (r.1, l :: r.2)
    else
      let v := a.visit l
      let r := traverse stack v.1 ls
      (r.1, v.2 :: r.2)

/-- `SurfaceFlinger::computeVisibleRegions`: the opaque region is `aboveOpaqueLayers` at the end. -/
def computeVisibleRegions (stack : ℕ) (layers : List (Layer P C)) :
    Above P × List (Layer P C) :=
  Above.traverse stack ⟨∅, ∅, ∅⟩ layers

variable [DecidableEq Q]

/-- Something of the layer shows on the display. -/
def Display.draws (hw : Display P Q C) (l : Layer P C) : Bool :=
  l.layerStack = hw.layerStack ∧ (hw.transform l.visibleNonTransparentRegion ∩ hw.bounds).Nonempty

/-- `SurfaceFlinger::rebuildLayerStacks` for one display. -/
def rebuildLayerStack (hw : Display P Q C) (layers : List (Layer P C)) :
    Display P Q C × List (Layer P C) :=
  if hw.isDisplayOn then
    let r := computeVisibleRegions hw.layerStack layers
    ({ hw with
       visibleLayersSortedByZ := (r.2.reverse.filter hw.draws).map (·.id)
       undefinedRegion := hw.bounds \ hw.transform r.1.aboveOpaqueLayers
       dirtyRegion := hw.dirtyRegion ∪ r.1.outDirtyRegion }, r.2)
  else ({ hw with visibleLayersSortedByZ := [], undefinedRegion := hw.bounds }, layers)

/-! ### Composition -/

inductive CompositionType
  | framebuffer
  | overlay
  | cursorOverlay
  | framebufferTarget
  deriving DecidableEq, Repr

/-- A layer of the work list, after `HWComposer::prepare`. -/
structure HwcLayer where
  compositionType : CompositionType
  hintClearFb : Bool
  deriving DecidableEq, Repr

def HwcLayer.isOverlay (h : HwcLayer) : Bool :=
  h.compositionType = .overlay ∨ h.compositionType = .cursorOverlay

/-- A display with no window layers, or without a work list, is composed by the GPU. -/
def hasGlesComposition (cur : List HwcLayer) : Bool :=
  cur.isEmpty || cur.any (·.compositionType = .framebuffer)

def hasHwcComposition (cur : List HwcLayer) : Bool := cur.any (·.isOverlay)

/-- What SurfaceFlinger draws with. `blend` puts a colour on another one, `wormhole` is the colour
of nothing; `box` is `Region::bounds`, and `getDirtyRegion` the function of the display, which is
given whether everything is to be repainted. -/
structure Engine (P Q C : Type*) [DecidableEq Q] where
  blend : C → C → C
  wormhole : C
  box : Finset Q → Finset Q
  getDirtyRegion : Display P Q C → Bool → Finset Q
  subset_box : ∀ r, r ⊆ box r
  bounds_subset : ∀ hw, hw.bounds ⊆ getDirtyRegion hw true
  subset_getDirtyRegion : ∀ hw repaintEverything,
    hw.transform hw.dirtyRegion ∩ hw.bounds ⊆ getDirtyRegion hw repaintEverything

variable (e : Engine P Q C)

/-- The scissor is set on secondary displays that do not use all of their screen. -/
def Display.scissored (hw : Display P Q C) : Bool := !hw.primary && hw.scissor ≠ hw.bounds

/-- Drawing `f` over a buffer, within the scissor. -/
def Display.within (hw : Display P Q C) (f : Q → C → C) (fb : Q → C) : Q → C := fun q =>
  if hw.scissored ∧ q ∉ hw.scissor then fb q else f q (fb q)

/-- `Layer::draw`: the whole layer, and not only what is in the clip region. -/
def Layer.drawOn (l : Layer P C) (hw : Display P Q C) : (Q → C) → (Q → C) :=
  hw.within fun q dst => l.draw e.blend (hw.tr.symm q) dst

/-- `Layer::clearWithOpenGL`. -/
def Layer.clearOn (l : Layer P C) (hw : Display P Q C) : (Q → C) → (Q → C) :=
  hw.within fun q dst => if hw.tr.symm q ∈ l.mesh then e.wormhole else dst

/-- The clip region of a layer. -/
def Layer.clip (l : Layer P C) (hw : Display P Q C) (dirty : Finset Q) : Finset Q :=
  dirty ∩ hw.transform l.visibleRegion

/-- The body of the loop over the work list, for the layer with the number `i`. -/
def composeLayer (hw : Display P Q C) (dirty : Finset Q) (gles : Bool) (i : ℕ) (l : Layer P C)
    (h : HwcLayer) (fb : Q → C) : Q → C :=
  if (l.clip hw dirty).Nonempty then
    match h.compositionType with
    | .framebuffer => l.drawOn e hw fb
    | .framebufferTarget => fb
    | .overlay | .cursorOverlay =>
      -- the very first layer is never cleared: the framebuffer already is, there
      if h.hintClearFb ∧ i ≠ 0 ∧ l.isOpaque ∧ l.alpha = 0xff ∧ gles then l.clearOn e hw fb else fb
  else fb

/-- The loop over the layers and the work list. -/
def composeWorkList (hw : Display P Q C) (dirty : Finset Q) (gles : Bool) :
    ℕ → List (Layer P C) → List HwcLayer → (Q → C) → (Q → C)
  | i, l :: ls, h :: hs, fb =>
    composeWorkList hw dirty gles (i + 1) ls hs (composeLayer e hw dirty gles i l h fb)
  | _, _, _, fb => fb

/-- The loop without a work list. -/
def composeLayers (hw : Display P Q C) (dirty : Finset Q) :
    List (Layer P C) → (Q → C) → (Q → C)
  | [], fb => fb
  | l :: ls, fb =>
    composeLayers hw dirty ls (if (l.clip hw dirty).Nonempty then l.drawOn e hw fb else fb)

/-- Clearing the buffer: all of it when overlays are to be seen through it, and otherwise what no
opaque layer covers and what is outside of the scissor. -/
def clearFramebuffer (hw : Display P Q C) (dirty : Finset Q) (cur : List HwcLayer) (fb : Q → C) :
    Q → C := fun q =>
  if hasGlesComposition cur ∧ (hasHwcComposition cur ∨
      q ∈ (hw.undefinedRegion ∪ (hw.bounds \ hw.scissor)) ∩ dirty) then e.wormhole
  else fb q

/-- The layers behind the pointers of `getVisibleLayersSortedByZ()`. -/
def Display.visibleLayers (hw : Display P Q C) (layers : List (Layer P C)) : List (Layer P C) :=
  hw.visibleLayersSortedByZ.filterMap fun i => layers.find? (·.id = i)

/-- `SurfaceFlinger::doComposeSurfaces`: nothing when the context cannot be made current. -/
def doComposeSurfaces (hw : Display P Q C) (layers : List (Layer P C)) (dirty : Finset Q)
    (cur : List HwcLayer) (makeCurrent : Bool) (back : Q → C) : Option (Q → C) :=
  if hasGlesComposition cur ∧ ¬ makeCurrent then none
  else
    let fb := clearFramebuffer e hw dirty cur back
    some (if cur.isEmpty then composeLayers e hw dirty (hw.visibleLayers layers) fb
      else composeWorkList e hw dirty (hasGlesComposition cur) 0 (hw.visibleLayers layers) cur fb)

/-- What a frame finds: the work list of the display, whether its context can be made current, and
the buffer to draw in, with what is left in it of some earlier frame. -/
structure Frame (Q C : Type*) where
  cur : List HwcLayer
  makeCurrent : Bool
  back : Q → C

/-- The region that is redrawn: a display that can update a part of its screen wants a rectangle,
and any other is redrawn as a whole. -/
def Display.redrawn (hw : Display P Q C) (inDirtyRegion : Finset Q) : Finset Q :=
  if hw.swapRectangle ∨ hw.partialUpdates then e.box (hw.swapRegion ∪ inDirtyRegion) else hw.bounds

/-- `SurfaceFlinger::doDisplayComposition`, and what of the buffer reaches the panel. -/
def doDisplayComposition (hw : Display P Q C) (layers : List (Layer P C))
    (inDirtyRegion : Finset Q) (f : Frame Q C) : Display P Q C :=
  if ¬ hw.hwcDisplay ∧ inDirtyRegion = ∅ then hw
  else
    let dirtyRegion := hw.redrawn e inDirtyRegion
    let swapRegion := if hw.swapRectangle ∨ hw.partialUpdates then hw.swapRegion ∪ inDirtyRegion
      else dirtyRegion
    match doComposeSurfaces e hw layers dirtyRegion f.cur f.makeCurrent f.back with
    | none => { hw with swapRegion := swapRegion }
    | some fb =>
      { hw with
        swapRegion := swapRegion ∪ dirtyRegion
        shown := fun q => if q ∈ swapRegion ∪ dirtyRegion then fb q else hw.shown q }

/-- `SurfaceFlinger::doComposition` for one display. -/
def doComposition (repaintEverything : Bool) (layers : List (Layer P C)) (hw : Display P Q C)
    (f : Frame Q C) : Display P Q C :=
  if hw.isDisplayOn then
    { doDisplayComposition e hw layers (e.getDirtyRegion hw repaintEverything) f with
      dirtyRegion := ∅
      swapRegion := ∅ }
  else hw

end Traversal

/-! ### The picture -/

/-- The layers of the stack of a display. -/
def onStack (stack : ℕ) (layers : List (Layer P C)) : List (Layer P C) :=
  layers.filter (·.layerStack = stack)

variable [DecidableEq P] [DecidableEq Q]

omit [DecidableEq P] in
theorem State.mem_footprint {s : State P C} {p : P} :
    p ∈ s.footprint ↔ s.isVisible = true ∧ p ∈ s.bounds := by
  unfold State.footprint
  split <;> simp [*]

omit [DecidableEq P] in
theorem State.mem_opaqueRegion {s : State P C} {p : P} :
    p ∈ s.opaqueRegion ↔
      (s.alpha = 255 ∧ s.isOpaque = true ∧ s.rotInvalid = false) ∧ p ∈ s.footprint := by
  unfold State.opaqueRegion
  split <;> simp_all

/-- What a layer makes of the colour `dst` at the pixel `p`; a hidden one is never drawn. -/
def State.paint (blend : C → C → C) (s : State P C) (p : P) (dst : C) : C :=
  if s.isVisible then s.draw blend p dst else dst

/-- A layer is what the regions take it for. Nothing of it is in its transparent region, and no
parent of it is translucent where it is taken to hide what is under it. -/
structure State.Right (blend : C → C → C) (s : State P C) : Prop where
  hint : ∀ p ∈ s.transparentRegion, ∀ dst, s.paint blend p dst = dst
  solid : s.opaqueRegion.Nonempty → s.getAlpha = 255

/-- Where it is opaque such a layer does not blend. -/
theorem State.Right.paint_of_opaque {blend : C → C → C} {s : State P C} (h : s.Right blend) {p : P}
    (hp : p ∈ s.opaqueRegion) (dst : C) : s.paint blend p dst = s.texel p := by
  have halpha := h.solid ⟨p, hp⟩
  obtain ⟨⟨-, hsolid, hrot⟩, hfoot⟩ := State.mem_opaqueRegion.mp hp
  obtain ⟨hvis, hbounds⟩ := State.mem_footprint.mp hfoot
  have hmesh : p ∈ s.mesh := by rwa [s.mesh_eq hrot]
  simp [State.paint, State.draw, hvis, hmesh, halpha, hsolid]

theorem State.paint_of_not_mem {blend : C → C → C} {s : State P C} {p : P}
    (h : p ∉ s.footprint) (dst : C) : s.paint blend p dst = dst := by
  rw [State.mem_footprint, not_and] at h
  unfold State.paint
  split
  · rename_i hvis
    rw [State.draw, if_neg fun hmesh => h hvis (s.mesh_subset hmesh)]
  · rfl

/-- A layer at the pixel `p` of its stack. -/
def Layer.cell (blend : C → C → C) (p : P) (l : Layer P C) : Cell C where
  foot := p ∈ l.footprint
  full := p ∈ l.opaqueRegion
  paint := l.paint blend p
  vis := p ∈ l.visibleRegion
  cov := p ∈ l.coveredRegion
  changed := l.contentDirty
  foot_of_full h := by
    rw [decide_eq_true_eq] at h ⊢
    exact (State.mem_opaqueRegion.mp h).2
  outside h a := by
    rw [decide_eq_false_iff_not] at h
    exact State.paint_of_not_mem h a

theorem Layer.hides {blend : C → C → C} {l : Layer P C} (h : l.Right blend) (p : P) :
    (l.cell blend p).Hides := by
  intro hfull a b
  have hp : p ∈ l.opaqueRegion := of_decide_eq_true hfull
  exact (h.paint_of_opaque hp a).trans (h.paint_of_opaque hp b).symm

/-- What the display ought to show of the surfaces `cs` at a pixel: all of them, back to front, over
the wormhole; nothing outside of the scissor. -/
def Display.pictureOf (e : Engine P Q C) (hw : Display P Q C) (cs : List (Cell C)) (q : Q) : C :=
  if hw.scissored ∧ q ∉ hw.scissor then e.wormhole else Painter.picture e.wormhole cs

/-- The layers of the display's stack, at one of its pixels. -/
def Display.cells (e : Engine P Q C) (hw : Display P Q C) (layers : List (Layer P C)) (q : Q) :
    List (Cell C) :=
  (onStack hw.layerStack layers).map (Layer.cell e.blend (hw.tr.symm q))

/-- **What a display ought to show**: every layer of its stack, drawn as a whole over what is behind
it. -/
def Display.picture (e : Engine P Q C) (hw : Display P Q C) (layers : List (Layer P C)) (q : Q) :
    C :=
  hw.pictureOf e (hw.cells e layers q) q

theorem hides_cells {e : Engine P Q C} {hw : Display P Q C} {layers : List (Layer P C)}
    (h : ∀ l ∈ layers, l.Right e.blend) (q : Q) : ∀ c ∈ hw.cells e layers q, c.Hides := by
  intro c hc
  obtain ⟨l, hl, rfl⟩ := List.mem_map.mp hc
  exact Layer.hides (h l (List.mem_of_mem_filter hl)) _

/-! ### What the traversal computes -/

section Traversal

omit [DecidableEq P] in
theorem onStack_cons_of_eq {stack : ℕ} {l : Layer P C} (h : l.layerStack = stack)
    (ls : List (Layer P C)) : onStack stack (l :: ls) = l :: onStack stack ls := by
  simp [onStack, h]

omit [DecidableEq P] in
theorem onStack_cons_of_ne {stack : ℕ} {l : Layer P C} (h : l.layerStack ≠ stack)
    (ls : List (Layer P C)) : onStack stack (l :: ls) = onStack stack ls := by
  simp [onStack, h]

variable {blend : C → C → C} {p : P} {stack : ℕ} {full foot : Bool} {a : Above P}

/-- What is in front of the layer the traversal has come to, at the pixel `p`. -/
structure Above.At (a : Above P) (p : P) (full foot : Bool) : Prop where
  full_iff : full = true ↔ p ∈ a.aboveOpaqueLayers
  foot_iff : foot = true ↔ p ∈ a.aboveCoveredLayers

variable (blend) in
theorem Above.At.visit (h : a.At p full foot) (l : Layer P C) :
    (a.visit l).1.At p (full || (l.cell blend p).full) (foot || (l.cell blend p).foot) := by
  constructor
  · simp [Above.visit, Layer.cell, h.full_iff]
  · simp [Above.visit, Layer.cell, h.foot_iff]

variable (blend) in
/-- The dirty region of a layer is the damage it does. -/
theorem Above.At.mem_dirty_iff (h : a.At p full foot) (l : Layer P C) :
    p ∈ (a.visit l).1.outDirtyRegion ↔
      p ∈ a.outDirtyRegion ∨ (l.cell blend p).damaged full foot = true := by
  have hfull := h.full_iff
  have hfoot := h.foot_iff
  cases hc : l.contentDirty <;>
    simp [Above.visit, Layer.dirty, Layer.cell, Cell.damaged, hc] <;> grind

variable (blend) in
/-- A pixel outside of the dirty region is not damaged. -/
theorem clean_of_not_mem_dirty {ls : List (Layer P C)} (ha : a.At p full foot)
    (h : p ∉ (a.traverse stack ls).1.outDirtyRegion) :
    p ∉ a.outDirtyRegion ∧ CleanFrom full foot ((onStack stack ls).map (Layer.cell blend p)) := by
  induction ls generalizing a full foot with
  | nil => exact ⟨h, trivial⟩
  | cons l ls ih =>
    unfold Above.traverse at h
    split at h
    · rename_i hne
      rw [onStack_cons_of_ne hne]
      exact ih ha h
    · rename_i heq
      rw [not_not] at heq
      obtain ⟨hdirty, hclean⟩ := ih (ha.visit blend l) h
      rw [ha.mem_dirty_iff blend l, not_or, Bool.not_eq_true] at hdirty
      rw [onStack_cons_of_eq heq]
      exact ⟨hdirty.1, hdirty.2, hclean⟩

/-- The regions it leaves in the layers are their records. -/
theorem recorded_traverse (ha : a.At p full foot) (ls : List (Layer P C)) :
    RecordedFrom full foot
      ((onStack stack (a.traverse stack ls).2).map (Layer.cell blend p)) := by
  have hfull := ha.full_iff
  have hfoot := ha.foot_iff
  induction ls generalizing a full foot with
  | nil => trivial
  | cons l ls ih =>
    unfold Above.traverse
    split
    · rename_i hne
      rw [onStack_cons_of_ne hne]
      exact ih ha hfull hfoot
    · rename_i heq
      rw [not_not] at heq
      rw [onStack_cons_of_eq (show (a.visit l).2.layerStack = stack from heq)]
      have hv := ha.visit blend l
      refine ⟨?_, ?_, ih hv hv.full_iff hv.foot_iff⟩
      · rw [Bool.eq_iff_iff]
        simp only [Layer.cell, decide_eq_true_eq, Bool.and_eq_true, Bool.not_eq_true',
          ← Bool.not_eq_true, hfull]
        exact Finset.mem_sdiff
      · rw [Bool.eq_iff_iff]
        simp only [Layer.cell, decide_eq_true_eq, Bool.and_eq_true, hfoot]
        exact Finset.mem_inter.trans and_comm

variable (blend) in
theorem mem_aboveOpaqueLayers (ha : a.At p full foot) (ls : List (Layer P C)) :
    p ∈ (a.traverse stack ls).1.aboveOpaqueLayers ↔ full = true ∨
      ∃ c ∈ (onStack stack ls).map (Layer.cell blend p), c.full = true := by
  induction ls generalizing a full foot with
  | nil => simp [Above.traverse, onStack, ha.full_iff]
  | cons l ls ih =>
    unfold Above.traverse
    split
    · rename_i hne
      rw [onStack_cons_of_ne hne, ih ha]
    · rename_i heq
      rw [not_not] at heq
      rw [onStack_cons_of_eq heq, ih (ha.visit blend l)]
      simp [or_assoc]

end Traversal

/-! ### What is drawn -/

/-- The GPU composes all of the `n` layers: there is no work list, or it leaves all of them to the
framebuffer. -/
def Gles (cur : List HwcLayer) (n : ℕ) : Prop :=
  cur = [] ∨ n ≤ cur.length ∧ ∀ h ∈ cur, h.compositionType = .framebuffer

section Drawing

variable {e : Engine P Q C} {hw : Display P Q C} {dirty : Finset Q} {q : Q}

/-- The layers with something in the dirty region are drawn, the front one last. -/
theorem composeLayers_apply (hq : ¬ (hw.scissored ∧ q ∉ hw.scissor)) {ls : List (Layer P C)}
    (hvis : ∀ l ∈ ls, (l.clip hw dirty).Nonempty → l.isVisible = true) (fb : Q → C) :
    composeLayers e hw dirty ls fb q = Painter.picture (fb q)
      ((ls.reverse.filter fun l => (l.clip hw dirty).Nonempty).map
        (Layer.cell e.blend (hw.tr.symm q))) := by
  induction ls generalizing fb with
  | nil => rfl
  | cons l ls ih =>
    rw [composeLayers, ih fun m hm => hvis m (List.mem_cons_of_mem l hm), List.reverse_cons,
      List.filter_append, List.map_append, picture_append]
    congr 1
    by_cases hclip : (l.clip hw dirty).Nonempty
    · have hdraw : l.drawOn e hw fb q = (l.cell e.blend (hw.tr.symm q)).paint (fb q) := by
        simp only [Layer.drawOn, Display.within, if_neg hq, Layer.cell, State.paint,
          hvis l List.mem_cons_self hclip, if_true]
      simp [hclip, hdraw]
    · simp [hclip]

theorem composeLayers_scissored (hq : hw.scissored ∧ q ∉ hw.scissor) (ls : List (Layer P C))
    (fb : Q → C) : composeLayers e hw dirty ls fb q = fb q := by
  induction ls generalizing fb with
  | nil => rfl
  | cons l ls ih =>
    rw [composeLayers, ih]
    split
    · simp only [Layer.drawOn, Display.within, if_pos hq]
    · rfl

/-- A work list that leaves everything to the framebuffer is drawn as if there were none. -/
theorem composeWorkList_eq {gles : Bool} {cur : List HwcLayer}
    (hcur : ∀ h ∈ cur, h.compositionType = .framebuffer) {ls : List (Layer P C)}
    (hlen : ls.length ≤ cur.length) (i : ℕ) (fb : Q → C) :
    composeWorkList e hw dirty gles i ls cur fb = composeLayers e hw dirty ls fb := by
  induction ls generalizing i cur fb with
  | nil =>
    unfold composeWorkList
    rfl
  | cons l ls ih =>
    cases cur with
    | nil => simp at hlen
    | cons h cur =>
      rw [List.length_cons, List.length_cons, Nat.add_le_add_iff_right] at hlen
      rw [composeWorkList, composeLayers,
        ih (fun g hg => hcur g (List.mem_cons_of_mem h hg)) hlen]
      simp only [composeLayer, hcur h List.mem_cons_self]

theorem Gles.hasGlesComposition {cur : List HwcLayer} {n : ℕ} (h : Gles cur n) :
    hasGlesComposition cur = true := by
  rcases h with rfl | ⟨-, hall⟩
  · rfl
  · cases cur with
    | nil => rfl
    | cons c cur => simp [Regions.hasGlesComposition, hall c List.mem_cons_self]

theorem Gles.hasHwcComposition {cur : List HwcLayer} {n : ℕ} (h : Gles cur n) :
    hasHwcComposition cur = false := by
  rcases h with rfl | ⟨-, hall⟩
  · rfl
  · simp only [Regions.hasHwcComposition, List.any_eq_false, HwcLayer.isOverlay]
    intro c hc
    simp [hall c hc]

/-- What `doComposeSurfaces` does when the GPU composes everything. -/
theorem doComposeSurfaces_gles {layers : List (Layer P C)} {cur : List HwcLayer} {back : Q → C}
    (h : Gles cur (hw.visibleLayers layers).length) :
    doComposeSurfaces e hw layers dirty cur true back =
      some (composeLayers e hw dirty (hw.visibleLayers layers)
        (clearFramebuffer e hw dirty cur back)) := by
  simp only [doComposeSurfaces, not_true_eq_false, and_false, if_false]
  split
  · rfl
  · rename_i hne
    rcases h with rfl | ⟨hlen, hall⟩
    · simp at hne
    · rw [composeWorkList_eq hall hlen]

/-- What the last traversal has left on the display is right for the layers as they are. -/
structure Settled (e : Engine P Q C) (hw : Display P Q C) (layers : List (Layer P C)) : Prop where
  recorded : ∀ q, Recorded (hw.cells e layers q)
  visible : hw.visibleLayersSortedByZ =
    ((onStack hw.layerStack layers).reverse.filter hw.draws).map (·.id)
  undefined : ∀ q, q ∈ hw.undefinedRegion ↔
    q ∈ hw.bounds ∧ ¬ ∃ c ∈ hw.cells e layers q, c.full = true
  nonTransparent : ∀ l ∈ onStack hw.layerStack layers,
    l.visibleNonTransparentRegion = l.visibleRegion \ l.transparentRegion

omit [DecidableEq P] [DecidableEq Q] in
theorem mem_onStack {stack : ℕ} {l : Layer P C} {layers : List (Layer P C)} :
    l ∈ onStack stack layers ↔ l ∈ layers ∧ l.layerStack = stack := by
  simp [onStack]

/-- A layer of which something is recorded as visible is visible. -/
theorem Settled.isVisible {layers : List (Layer P C)} (h : Settled e hw layers) {l : Layer P C}
    (hl : l ∈ onStack hw.layerStack layers) {q : Q} (hq : q ∈ hw.transform l.visibleRegion) :
    l.isVisible = true := by
  rw [Display.mem_transform] at hq
  obtain ⟨as, bs, heq⟩ := List.append_of_mem hl
  have hrec := h.recorded q
  rw [Display.cells, heq, List.map_append, List.map_cons] at hrec
  have hfoot : (l.cell e.blend (hw.tr.symm q)).foot = true := by
    have hvis := hrec.at.1
    rw [show (l.cell e.blend (hw.tr.symm q)).vis = true from decide_eq_true hq] at hvis
    exact (Bool.and_eq_true_iff.mp hvis.symm).1
  exact (State.mem_footprint.mp (of_decide_eq_true hfoot)).1

omit [DecidableEq P] [DecidableEq Q] in
/-- The layers are where their pointers point to. -/
theorem filterMap_find {layers : List (Layer P C)} (hnodup : (layers.map (·.id)).Nodup)
    {ls : List (Layer P C)} (h : ∀ l ∈ ls, l ∈ layers) :
    (ls.map (·.id)).filterMap (fun i => layers.find? (·.id = i)) = ls := by
  rw [List.filterMap_map]
  induction ls with
  | nil => rfl
  | cons l ls ih =>
    have hfind : layers.find? (fun m => decide (m.id = l.id)) = some l := by
      rw [List.find?_eq_some_iff_append]
      obtain ⟨as, bs, rfl⟩ := List.append_of_mem (h l List.mem_cons_self)
      refine ⟨by simp, as, bs, rfl, ?_⟩
      intro a ha
      rw [List.map_append, List.nodup_append] at hnodup
      have hne := hnodup.2.2 a.id (List.mem_map_of_mem ha) l.id (by simp)
      simpa using hne
    simp only [List.filterMap_cons, Function.comp_apply, hfind]
    exact congrArg (l :: ·) (ih fun m hm => h m (List.mem_cons_of_mem l hm))

theorem Settled.visibleLayers_eq {layers : List (Layer P C)} (h : Settled e hw layers)
    (hnodup : (layers.map (·.id)).Nodup) :
    hw.visibleLayers layers = (onStack hw.layerStack layers).reverse.filter hw.draws := by
  rw [Display.visibleLayers, h.visible]
  refine filterMap_find hnodup fun l hl => ?_
  exact (mem_onStack.mp (List.mem_reverse.mp (List.mem_of_mem_filter hl))).1

/-- **What is redrawn is the picture.** In a frame that the GPU composes, at every pixel of the
display that is to be redrawn, whatever was in the buffer: the layers that are hidden, and those of
which nothing shows, may be left out, and so may clearing what is under an opaque layer. -/
theorem doComposeSurfaces_eq_picture {layers : List (Layer P C)} (h : Settled e hw layers)
    (hnodup : (layers.map (·.id)).Nodup) (hright : ∀ l ∈ layers, l.Right e.blend)
    {cur : List HwcLayer} (hcur : Gles cur (hw.visibleLayers layers).length) (back : Q → C)
    (hdirty : q ∈ dirty) (hq : q ∈ hw.bounds) :
    ∃ fb, doComposeSurfaces e hw layers dirty cur true back = some fb ∧
      fb q = hw.picture e layers q := by
  refine ⟨_, doComposeSurfaces_gles hcur, ?_⟩
  have hcleared : clearFramebuffer e hw dirty cur back q =
      if q ∈ hw.undefinedRegion ∨ q ∉ hw.scissor then e.wormhole else back q := by
    simp [clearFramebuffer, hcur.hasGlesComposition, hcur.hasHwcComposition, hdirty, hq]
  unfold Display.picture Display.pictureOf
  split
  · rename_i hsc
    rw [composeLayers_scissored hsc, hcleared, if_pos (.inr hsc.2)]
  · rename_i hsc
    have hright' : ∀ l ∈ onStack hw.layerStack layers,
        (l.cell e.blend (hw.tr.symm q)).Hides :=
      fun l hl => Layer.hides (hright l (mem_onStack.mp hl).1) _
    rw [h.visibleLayers_eq hnodup, composeLayers_apply hsc]
    · rw [List.filter_reverse, List.filter_reverse, List.filter_reverse, List.reverse_reverse,
        List.filter_filter, picture_filter hright']
      · rw [hcleared]
        split
        · rfl
        · rename_i hback
          -- not cleared: there is an opaque layer
          rw [not_or, h.undefined, not_and, not_not] at hback
          exact picture_congr_background (hides_cells hright q) (hback.1 hq) _ _
      · refine spares_of_recorded (h.recorded q) ?_
        intro l hl hskip hvis dst
        rw [mem_onStack] at hl
        have hmem : hw.tr.symm q ∈ l.visibleRegion := of_decide_eq_true hvis
        have hclip : (l.clip hw dirty).Nonempty :=
          ⟨q, Finset.mem_inter.mpr ⟨hdirty, Display.mem_transform.mpr hmem⟩⟩
        -- it is left out because nothing of it shows, so here it is transparent
        have htr : hw.tr.symm q ∈ l.transparentRegion := by
          by_contra htr
          have hdraws : hw.draws l = true := by
            rw [Display.draws, decide_eq_true_eq]
            refine ⟨hl.2, q, Finset.mem_inter.mpr ⟨Display.mem_transform.mpr ?_, hq⟩⟩
            rw [h.nonTransparent l (mem_onStack.mpr hl)]
            exact Finset.mem_sdiff.mpr ⟨hmem, htr⟩
          simp [hclip, hdraws] at hskip
        exact (hright l hl.1).hint _ htr dst
    · intro l hl hclip
      obtain ⟨r, hr⟩ := hclip
      exact h.isVisible (List.mem_reverse.mp (List.mem_of_mem_filter hl)) (Finset.mem_inter.mp hr).2

end Drawing

end Regions

end Flinger

end A1000
